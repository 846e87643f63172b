import MqttClient.Effect.Logic
import MqttClient.Types
import MqttClient.Wire.Memory

/-! # The TLS wrapper

`iot_tls_read` and `iot_tls_write` repeat what they ask of the TLS library until
all bytes have been moved, an error is reported or a timer has expired. The
library and the clock are the environment: a read or a write of `n` bytes may
answer any integer that is at most `n`.
-/

namespace MqttClient.Network

open Effect

/-! ## Timers -/

structure TimeVal where
  sec : Int
  usec : Int

def timersub (a b : TimeVal) : TimeVal :=
  if a.usec - b.usec < 0 then ⟨a.sec - b.sec - 1, a.usec - b.usec + 1000000⟩
  else ⟨a.sec - b.sec, a.usec - b.usec⟩

structure Timer where
  endTime : TimeVal

/-- The test of `has_timer_expired`. -/
def Timer.hasExpired (timer : Timer) (now : TimeVal) : Bool :=
  let res := timersub timer.endTime now
  res.sec < 0 || (res.sec = 0 && res.usec ≤ 0)

/-! ## The library and the clock -/

/-- `MBEDTLS_ERR_SSL_WANT_READ`, `MBEDTLS_ERR_SSL_WANT_WRITE` and `MBEDTLS_ERR_SSL_TIMEOUT`. -/
def wantRead : Int := -0x6900
def wantWrite : Int := -0x6880
def sslTimeout : Int := -0x6800

inductive Query where
  | sslRead (n : Nat)
  /-- `n` bytes from `pMsg[off]` on are offered. -/
  | sslWrite (off n : Nat)
  | getTimeOfDay

abbrev Answer : Query → Type
  | .sslRead n | .sslWrite _ n => { ret : Int // ret ≤ n }
  | .getTimeOfDay => TimeVal

/-- Where the timer is looked at: behind a read, by the loop over the bytes of a write,
in front of each write, and behind that loop. -/
inductive TimerCheck where
  | behindRead | loop | beforeWrite | behindLoop
  deriving DecidableEq

/-- What the environment has answered. -/
inductive Exchange where
  | read (n : Nat) (ret : Int)
  | write (off n : Nat) (ret : Int)
  | checked (check : TimerCheck) (expired : Bool)
  deriving DecidableEq

/-- The memory that `pMsg` points into, the bytes that come in, how many of them have been
consumed, and what has been exchanged, the newest first. -/
structure Link where
  memory : Memory
  stream : Memory
  consumed : Nat
  exchanges : List Exchange

namespace Link

def log (s : Link) (e : Exchange) : Link := { s with exchanges := e :: s.exchanges }

/-- The next bytes of the stream have been stored, as many as the result says. -/
def stored (s : Link) (off : Nat) (ret : Int) : Link :=
  { s with
    memory := s.memory.store off (s.stream.load s.consumed ret.toNat)
    consumed := s.consumed + ret.toNat }

/-- The link of which nothing is recorded. -/
def fresh (s : Link) : Link := { s with exchanges := [] }

end Link

abbrev M := Program Link Answer

/-- `mbedtls_ssl_read` of `n` bytes to `pMsg[off]` and on. -/
def sslRead (off n : Nat) : M Int := do
  let (ret : { ret : Int // ret ≤ n }) ← Program.query (A := Answer) (.sslRead n)
  Program.modify fun s => (s.stored off ret).log (.read n ret)
  return ret

/-- `mbedtls_ssl_write` of `n` bytes from `pMsg[off]` on. -/
def sslWrite (off n : Nat) : M Int := do
  let (ret : { ret : Int // ret ≤ n }) ← Program.query (A := Answer) (.sslWrite off n)
  Program.modify (·.log (.write off n ret))
  return ret

def hasTimerExpired (check : TimerCheck) (timer : Timer) : M Bool := do
  let (now : TimeVal) ← Program.query (A := Answer) .getTimeOfDay
  Program.modify (·.log (.checked check (timer.hasExpired now)))
  return timer.hasExpired now

/-! ## Reading -/

/-- The variables of the loop of `iotTlsRead`; `pMsg` and `len` say what is left. -/
structure ReadProgress where
  rxLen : Nat
  pMsg : Nat
  len : Nat

/-- The end of a turn of the loop of `iotTlsRead`: the timer, then the condition of the loop. -/
def untilExpired (timer : Timer) (p : ReadProgress) :
    M (ReadProgress ⊕ Except IotError ReadProgress) := do
  let expired ← hasTimerExpired .behindRead timer
  if expired then return .inr (.ok p)
  else if p.len > 0 then return .inl p
  else return .inr (.ok p)

/-- One turn of the loop of `iotTlsRead`. -/
def iotTlsReadStep (timer : Timer) (p : ReadProgress) :
    M (ReadProgress ⊕ Except IotError ReadProgress) := do
  let ret ← sslRead p.pMsg p.len
  if ret > 0 then
    untilExpired timer ⟨p.rxLen + ret.toNat, p.pMsg + ret.toNat, p.len - ret.toNat⟩
  else if ret = 0 ∨ (ret ≠ wantRead ∧ ret ≠ wantWrite ∧ ret ≠ sslTimeout) then
    return .inr (.error .networkSslReadError)
  else untilExpired timer p

/-- `while(len > 0)`. -/
def iotTlsReadLoop (turns off len : Nat) (timer : Timer) : M (Except IotError ReadProgress) :=
  if len > 0 then Program.loop (iotTlsReadStep timer) turns ⟨0, off, len⟩
  else return .ok ⟨0, off, len⟩

/-- `iot_tls_read` of `len` bytes to `pMsg[off]` and on: the code, and `*read_len` if it is
assigned. -/
def iotTlsRead (turns off len : Nat) (timer : Timer) : M (IotError × Option Nat) := do
  let r ← iotTlsReadLoop turns off len timer
  match r with
  | .error rc => return (rc, none)
  | .ok p =>
      if p.len = 0 then return (.success, some p.rxLen)
      else if p.rxLen = 0 then return (.networkSslNothingToRead, none)
      else return (.networkSslReadTimeoutError, none)

/-! ## Writing -/

/-- The variables of the loop of `iotTlsWrite`. -/
structure WriteProgress where
  writtenSoFar : Nat
  ret : Int

/-- `n += ret`, of a `size_t` and an `int`. -/
def addSize (n : Nat) (ret : Int) : Nat := ((n + ret) % 2 ^ 64).toNat

/-- One turn of the inner loop of `iotTlsWrite`: `ret` and `isErrorFlag` when it ends. Where the
timer has expired `ret` stays as it is. -/
def retryStep (off n : Nat) (timer : Timer) (ret : Int) : M (Int ⊕ Int × Bool) := do
  let expired ← hasTimerExpired .beforeWrite timer
  if expired then return .inr (ret, false)
  else
    let ret ← sslWrite off n
    if ret ≤ 0 then
      if ret ≠ wantRead ∧ ret ≠ wantWrite then return .inr (ret, true) else return .inl ret
    else return .inr (ret, false)

/-- One turn of the outer loop of `iotTlsWrite`. -/
def iotTlsWriteStep (turns off len : Nat) (timer : Timer) (p : WriteProgress) :
    M (WriteProgress ⊕ WriteProgress × Bool) := do
  if p.writtenSoFar < len then
    let expired ← hasTimerExpired .loop timer
    if expired then return .inr (p, false)
    else
      let (ret, isErrorFlag) ← Program.loop
        (retryStep (off + p.writtenSoFar) (len - p.writtenSoFar) timer) turns p.ret
      if isErrorFlag then return .inr (⟨p.writtenSoFar, ret⟩, true)
      else return .inl ⟨addSize p.writtenSoFar ret, ret⟩
  else return .inr (p, false)

/-- `iot_tls_write` of the `len` bytes from `pMsg[off]` on: the code, and `*written_len`. The
variable `ret` is not initialized: it starts as the argument `ret`. -/
def iotTlsWrite (turns : Nat) (ret : Int) (off len : Nat) (timer : Timer) : M (IotError × Nat) := do
  let (p, isErrorFlag) ← Program.loop (iotTlsWriteStep turns off len timer) turns ⟨0, ret⟩
  if isErrorFlag then return (.networkSslWriteError, p.writtenSoFar)
  else
    let expired ← hasTimerExpired .behindLoop timer
    if expired ∧ p.writtenSoFar ≠ len then
      return (.networkSslWriteTimeoutError, p.writtenSoFar)
    else return (.success, p.writtenSoFar)

end MqttClient.Network
