import MqttClient.Network.Reading
import Mathlib.Algebra.BigOperators.Group.List.Basic

/-! # Writing through the TLS wrapper

The loop adds the result of the last write to what it has written, also where
the timer has expired in front of a write and no write was made: the result is
then counted again. What is returned can be relied on where no result is.
-/

namespace MqttClient.Network

open Effect Program

/-! ## What has been exchanged -/

/-- The bytes that the library has accepted. -/
def accepted : List Exchange → Nat
  | [] => 0
  | .write _ _ r :: h => r.toNat + accepted h
  | _ :: h => accepted h

/-- The result of the last write, if there was one. -/
def lastRet (ret : Int) : List Exchange → Int
  | [] => ret
  | .write _ _ r :: _ => r
  | _ :: h => lastRet ret h

/-- The results that are counted without a write: those of the last write where the timer has
expired in front of the next one. -/
def recounted (ret : Int) : List Exchange → List Int
  | [] => []
  | .checked .beforeWrite true :: h => lastRet ret h :: recounted ret h
  | _ :: h => recounted ret h

/-- Every write has offered bytes of the caller's buffer. -/
def OffersInside (off len : Nat) (h : List Exchange) : Prop :=
  ∀ o n ret, .write o n ret ∈ h → off ≤ o ∧ o + n ≤ off + len

/-- Nothing is added to what has been written but what is accepted; or the results that are
counted again cancel out. -/
def CountsOnce (ret : Int) (len : Nat) (h : List Exchange) : Prop :=
  (∀ r ∈ recounted ret h, r = 0) ∨ (2 ^ 64 : Int) ∣ (recounted ret h).sum ∧ accepted h ≤ len

/-- The timer that has ended the loop is still expired behind it. -/
def StaysExpired (h : List Exchange) : Prop :=
  ∀ h', h ≠ .checked .behindLoop false :: .checked .loop true :: h'

/-- What is returned says what has been accepted. -/
structure WritesRightly (off len : Nat) (h : List Exchange) (r : IotError × Nat) : Prop where
  offers : OffersInside off len h
  written : r.2 = accepted h
  written_le : r.2 ≤ len
  success_iff : r.1 = .success ↔ accepted h = len

/-- Every write offers bytes of the caller's buffer. -/
def writing (off len : Nat) : Discipline Link Answer where
  pre q _ := ∀ o n, q = .sslWrite o n → off ≤ o ∧ o + n ≤ off + len
  allow := anything
  may _ _ := True
  guar s t := OffersInside off len s.exchanges → OffersInside off len t.exchanges
  rely s t := t = s
  halts _ := True

instance (off len : Nat) : (writing off len).Sequential :=
  ⟨fun _ _ => trivial, fun _ _ => Iff.rfl⟩

section Primitives

variable {off len : Nat} {timer : Timer} {s : Link}

theorem wp_hasTimerExpired {check : TimerCheck} {Φ : Bool → Link → Prop}
    (h : ∀ expired, Φ expired (s.log (.checked check expired))) :
    wp (writing off len) (hasTimerExpired check timer) Φ s := by
  simp only [hasTimerExpired, wp_bind, wp_query, wp_modify, pure_eq, wp_ret]
  refine ⟨by rintro _ _ ⟨⟩, fun now _ => ⟨fun hinside o n ret hmem => ?_, h _⟩⟩
  cases hmem with
  | tail _ hmem => exact hinside o n ret hmem

theorem wp_sslWrite {o n : Nat} {Φ : Int → Link → Prop} (hle : off ≤ o) (hend : o + n ≤ off + len)
    (h : ∀ ret : Int, ret ≤ n → Φ ret (s.log (.write o n ret))) :
    wp (writing off len) (sslWrite o n) Φ s := by
  simp only [sslWrite, wp_bind, wp_query, wp_modify, pure_eq, wp_ret]
  refine ⟨?_, ?_⟩
  · rintro _ _ ⟨⟩
    exact ⟨hle, hend⟩
  · rintro ⟨ret, hret⟩ -
    refine ⟨fun hinside o' n' ret' hmem => ?_, h ret hret⟩
    cases hmem with
    | head => exact ⟨hle, hend⟩
    | tail _ hmem => exact hinside o' n' ret' hmem

end Primitives

section Loops

variable {turns off len : Nat} {timer : Timer} {ret₀ : Int} {s t : Link}

/-- What `n` says, if it is what has been written: what was accepted and what was counted again. -/
structure Account (ret₀ : Int) (len n : Nat) (h : List Exchange) : Prop where
  written : (n : Int) = (accepted h + (recounted ret₀ h).sum) % 2 ^ 64
  once : (∀ r ∈ recounted ret₀ h, r = 0) → accepted h ≤ len

/-- The variables at the start of a turn of the outer loop. -/
structure Writing (ret₀ : Int) (len : Nat) (p : WriteProgress) (t : Link) : Prop where
  ret : p.ret = lastRet ret₀ t.exchanges
  account : Account ret₀ len p.writtenSoFar t.exchanges
  running : ∀ h, t.exchanges ≠ .checked .loop true :: h

/-- How the inner loop ends that was started at `s` with `n` bytes to offer. -/
inductive RetryEnds (ret₀ : Int) (n : Nat) (s t : Link) : Int × Bool → Prop
  | failed {ret : Int} (haccepted : accepted t.exchanges = accepted s.exchanges)
      (hrecounted : recounted ret₀ t.exchanges = recounted ret₀ s.exchanges)
      (hwrote : ∀ check expired h, t.exchanges ≠ .checked check expired :: h) :
      RetryEnds ret₀ n s t (ret, true)
  | wrote {ret : Int} (hpos : 0 < ret) (hle : ret ≤ n)
      (hret : ret = lastRet ret₀ t.exchanges)
      (haccepted : accepted t.exchanges = ret.toNat + accepted s.exchanges)
      (hrecounted : recounted ret₀ t.exchanges = recounted ret₀ s.exchanges)
      (hrunning : ∀ h, t.exchanges ≠ .checked .loop true :: h) :
      RetryEnds ret₀ n s t (ret, false)
  | expired {ret : Int} (hret : ret = lastRet ret₀ t.exchanges)
      (haccepted : accepted t.exchanges = accepted s.exchanges)
      (hrecounted : recounted ret₀ t.exchanges = ret :: recounted ret₀ s.exchanges)
      (hrunning : ∀ h, t.exchanges ≠ .checked .loop true :: h) :
      RetryEnds ret₀ n s t (ret, false)

/-- While the inner loop goes on nothing is accepted. -/
structure Retrying (ret₀ : Int) (s : Link) (ret : Int) (t : Link) : Prop where
  ret : ret = lastRet ret₀ t.exchanges
  accepted : accepted t.exchanges = Network.accepted s.exchanges
  recounted : recounted ret₀ t.exchanges = Network.recounted ret₀ s.exchanges

/-- Step lemma of the inner loop. -/
theorem wp_retryStep {o n : Nat} {ret : Int} (hle : off ≤ o) (hend : o + n ≤ off + len)
    (h : Retrying ret₀ s ret t) :
    wp (writing off len) (retryStep o n timer ret)
      (fun r u => Sum.elim (Retrying ret₀ s · u) (RetryEnds ret₀ n s u) r) t := by
  rw [retryStep, wp_bind]
  apply wp_hasTimerExpired
  intro expired
  cases expired with
  | true =>
      refine .expired h.ret h.accepted ?_ nofun
      rw [← h.recounted, h.ret]
      rfl
  | false =>
      simp only [Bool.false_eq_true, if_false, wp_bind]
      apply wp_sslWrite hle hend
      intro ret hret
      split
      next hnonpos =>
        have haccepted : ret.toNat + accepted t.exchanges = accepted s.exchanges := by
          rw [Int.toNat_of_nonpos hnonpos, Nat.zero_add, h.accepted]
        split
        next => exact .failed haccepted h.recounted nofun
        next => exact ⟨rfl, haccepted, h.recounted⟩
      next hpos =>
        refine .wrote (Int.not_le.mp hpos) hret rfl ?_ h.recounted nofun
        exact congrArg (ret.toNat + ·) h.accepted

theorem wp_retryLoop {o n : Nat} {ret : Int} (hle : off ≤ o) (hend : o + n ≤ off + len)
    (hret : ret = lastRet ret₀ s.exchanges) :
    wp (writing off len) (loop (retryStep o n timer) turns ret)
      (fun r t => RetryEnds ret₀ n s t r) s := by
  apply wp_loop (I := Retrying ret₀ s)
  · exact fun _ _ _ => trivial
  · exact fun ret t h => wp_retryStep hle hend h
  · exact ⟨hret, rfl, rfl⟩

/-- How the outer loop ends. -/
inductive WriteEnds (ret₀ : Int) (len : Nat) (t : Link) : WriteProgress × Bool → Prop
  | failed {p : WriteProgress} (hlt : p.writtenSoFar < len)
      (haccount : Account ret₀ len p.writtenSoFar t.exchanges)
      (hwrote : ∀ check expired h, t.exchanges ≠ .checked check expired :: h) :
      WriteEnds ret₀ len t (p, true)
  | expired {p : WriteProgress} {h : List Exchange} (hlt : p.writtenSoFar < len)
      (haccount : Account ret₀ len p.writtenSoFar t.exchanges)
      (hexpired : t.exchanges = .checked .loop true :: h) : WriteEnds ret₀ len t (p, false)
  | done {p : WriteProgress} (hle : len ≤ p.writtenSoFar)
      (haccount : Account ret₀ len p.writtenSoFar t.exchanges)
      (hrunning : ∀ h, t.exchanges ≠ .checked .loop true :: h) : WriteEnds ret₀ len t (p, false)

theorem addSize_eq (n : Nat) (ret : Int) : (addSize n ret : Int) = (n + ret) % 2 ^ 64 :=
  Int.toNat_of_nonneg (Int.emod_nonneg _ (by decide))

/-- The account as it is where nothing has been counted. -/
theorem Account.congr {n : Nat} {h h' : List Exchange} (haccount : Account ret₀ len n h)
    (haccepted : accepted h' = accepted h) (hrecounted : recounted ret₀ h' = recounted ret₀ h) :
    Account ret₀ len n h' := by
  obtain ⟨hwritten, honce⟩ := haccount
  exact ⟨by rwa [haccepted, hrecounted], by rwa [haccepted, hrecounted]⟩

/-- The look at the timer behind the loop counts nothing. -/
theorem Account.lastCheck {n : Nat} (haccount : Account ret₀ len n t.exchanges) (expired : Bool) :
    Account ret₀ len n (t.log (.checked .behindLoop expired)).exchanges :=
  haccount.congr rfl rfl

/-- The account when a result has been added: that of a write, or that of the one before again. -/
theorem RetryEnds.account {n : Nat} {ret : Int} (hlen : len < 2 ^ 64) (hlt : n < len)
    (haccount : Account ret₀ len n s.exchanges) (h : RetryEnds ret₀ (len - n) s t (ret, false)) :
    Account ret₀ len (addSize n ret) t.exchanges := by
  have hwritten := haccount.written
  cases h with
  | wrote hpos hle hret haccepted hrecounted =>
      refine ⟨?_, fun hzero => ?_⟩
      · have hadd : (accepted t.exchanges : Int) = ret + accepted s.exchanges := by omega
        rw [addSize_eq, hwritten, hadd, hrecounted, Int.emod_add_emod]
        congr 1
        omega
      · -- what had been written then is what had been accepted
        rw [hrecounted] at hzero
        have hsum : (recounted ret₀ s.exchanges).sum = 0 := List.sum_eq_zero hzero
        have honce := haccount.once hzero
        omega
  | expired hret haccepted hrecounted =>
      refine ⟨?_, fun hzero => ?_⟩
      · rw [addSize_eq, hwritten, haccepted, hrecounted, List.sum_cons, Int.emod_add_emod]
        congr 1
        omega
      · rw [hrecounted] at hzero
        rw [haccepted]
        exact haccount.once fun r hr => hzero r (List.mem_cons_of_mem _ hr)

/-- Step lemma of the outer loop. -/
theorem wp_iotTlsWriteStep {p : WriteProgress} (hlen : len < 2 ^ 64) (h : Writing ret₀ len p t) :
    wp (writing off len) (iotTlsWriteStep turns off len timer p)
      (fun r u => Sum.elim (Writing ret₀ len · u) (WriteEnds ret₀ len u) r) t := by
  unfold iotTlsWriteStep
  split
  next hlt =>
    rw [wp_bind]
    apply wp_hasTimerExpired
    intro expired
    cases expired with
    | true => exact .expired hlt (h.account.congr rfl rfl) rfl
    | false =>
        simp only [Bool.false_eq_true, if_false, wp_bind]
        have haccount : Account ret₀ len p.writtenSoFar (t.log (.checked .loop false)).exchanges :=
          h.account.congr rfl rfl
        have hret : p.ret = lastRet ret₀ (t.log (.checked .loop false)).exchanges := h.ret
        have hend : off + p.writtenSoFar + (len - p.writtenSoFar) ≤ off + len := by omega
        apply wp_mono _ (wp_retryLoop (Nat.le_add_right off p.writtenSoFar) hend hret)
        rintro ⟨ret, isErrorFlag⟩ u hu
        cases isErrorFlag with
        | true =>
            cases hu with
            | failed haccepted hrecounted hwrote =>
                exact .failed hlt (haccount.congr haccepted hrecounted) hwrote
        | false =>
            have hcounted := hu.account hlen hlt haccount
            cases hu with
            | wrote _ _ hret _ _ hrunning => exact ⟨hret, hcounted, hrunning⟩
            | expired hret _ _ hrunning => exact ⟨hret, hcounted, hrunning⟩
  next hge => exact .done (Nat.not_lt.mp hge) h.account h.running

end Loops

/-! ## When the result can be relied on -/

section Results

variable {off len n : Nat} {ret : Int} {h : List Exchange}

/-- The number written is the number accepted just where the results are counted once. -/
theorem Account.countsOnce_iff (hlen : len < 2 ^ 64) (haccount : Account ret len n h) :
    n = accepted h ∧ n ≤ len ↔ CountsOnce ret len h := by
  have hwritten := haccount.written
  constructor
  · rintro ⟨heq, hle⟩
    refine .inr ⟨?_, heq ▸ hle⟩
    rw [← heq] at hwritten
    omega
  · rintro (hzero | ⟨hdvd, hle⟩)
    · have hle := haccount.once hzero
      rw [List.sum_eq_zero hzero] at hwritten
      omega
    · omega

/-- What is returned is right just where the results are counted once and the code fits them. -/
theorem Account.result_iff {rc : IotError} (hlen : len < 2 ^ 64)
    (haccount : Account ret len n h) (hoffers : OffersInside off len h)
    (hrc : n ≤ len → ((rc = .success ↔ n = len) ↔ StaysExpired h)) :
    WritesRightly off len h (rc, n) ↔ CountsOnce ret len h ∧ StaysExpired h := by
  rw [← haccount.countsOnce_iff hlen]
  constructor
  · rintro ⟨-, hwritten, hle, hsuccess⟩
    simp only at hwritten hle hsuccess
    rw [← hwritten] at hsuccess
    exact ⟨⟨hwritten, hle⟩, (hrc hle).mp hsuccess⟩
  · rintro ⟨⟨hwritten, hle⟩, hstays⟩
    exact ⟨hoffers, hwritten, hle, hwritten ▸ (hrc hle).mpr hstays⟩

end Results

section Writes

variable {off len : Nat} {timer : Timer} {ret : Int} {t : Link}

/-- The last look at the timer, and what is returned. -/
theorem WriteEnds.wp_result {p : WriteProgress} {isErrorFlag : Bool} (hlen : len < 2 ^ 64)
    (hends : WriteEnds ret len t (p, isErrorFlag)) :
    wp (writing off len)
      (if isErrorFlag then pure (.networkSslWriteError, p.writtenSoFar)
      else do
        let expired ← hasTimerExpired .behindLoop timer
        if expired ∧ p.writtenSoFar ≠ len then
          return (.networkSslWriteTimeoutError, p.writtenSoFar)
        else return (.success, p.writtenSoFar))
      (fun r u => OffersInside off len u.exchanges →
        (WritesRightly off len u.exchanges r ↔
          CountsOnce ret len u.exchanges ∧ StaysExpired u.exchanges)) t := by
  cases hends with
  | failed hlt haccount hwrote =>
      intro hoffers
      apply haccount.result_iff hlen hoffers
      exact fun _ => iff_of_true (iff_of_false nofun hlt.ne) fun h' => hwrote _ _ _
  | @expired _ h hlt haccount hexpired =>
      simp only [Bool.false_eq_true, if_false, wp_bind]
      apply wp_hasTimerExpired
      intro expired
      cases expired with
      | true =>
          simp only [true_and, if_pos hlt.ne]
          intro hoffers
          apply (haccount.lastCheck _).result_iff hlen hoffers
          exact fun _ => iff_of_true (iff_of_false nofun hlt.ne) nofun
      | false =>
          -- the clock has been set back since the loop was left
          simp only [Bool.false_eq_true, false_and, if_false]
          intro hoffers
          apply (haccount.lastCheck _).result_iff hlen hoffers
          intro _
          refine iff_of_false (fun hsuccess => hlt.ne (hsuccess.mp rfl)) fun hstays => ?_
          exact hstays h (congrArg (Exchange.checked .behindLoop false :: ·) hexpired)
  | done hge haccount hrunning =>
      simp only [Bool.false_eq_true, if_false, wp_bind]
      apply wp_hasTimerExpired
      intro expired
      have hstays : StaysExpired (t.log (.checked .behindLoop expired)).exchanges :=
        fun h' heq => hrunning h' (List.cons.inj heq).2
      split
      next hshort =>
        intro hoffers
        apply (haccount.lastCheck _).result_iff hlen hoffers
        exact fun hle => absurd (Nat.le_antisymm hle hge) hshort.2
      next =>
        intro hoffers
        apply (haccount.lastCheck _).result_iff hlen hoffers
        exact fun hle => iff_of_true (iff_of_true rfl (Nat.le_antisymm hle hge)) hstays

/-- Run lemma: what a write returns, by what has been exchanged. -/
theorem wp_iotTlsWrite (turns : Nat) (ret : Int) (off : Nat) (timer : Timer) (hlen : len < 2 ^ 64)
    (s : Link) :
    wp (writing off len) (iotTlsWrite turns ret off len timer)
      (fun r u => OffersInside off len u.exchanges →
        (WritesRightly off len u.exchanges r ↔
          CountsOnce ret len u.exchanges ∧ StaysExpired u.exchanges)) s.fresh := by
  rw [iotTlsWrite, wp_bind]
  apply wp_mono (Φ := fun r t => WriteEnds ret len t r)
  · rintro ⟨p, isErrorFlag⟩ t hends
    exact hends.wp_result hlen
  · apply wp_loop (I := Writing ret len)
    · exact fun _ _ _ => trivial
    · exact fun p t h => wp_iotTlsWriteStep hlen h
    · exact ⟨rfl, ⟨rfl, fun _ => Nat.zero_le _⟩, nofun⟩

/-- A write offers only bytes of the caller's buffer. What it returns says what has been accepted
just where no result is counted again and the timer stays expired. -/
theorem writesRightly_iff (turns : Nat) (ret : Int) (off : Nat) (timer : Timer)
    (hlen : len < 2 ^ 64)
    (s : Link) :
    (∀ p t, Steps anything (iotTlsWrite turns ret off len timer, s.fresh) (p, t) →
      OffersInside off len t.exchanges) ∧
      ∀ r t, Returns anything (iotTlsWrite turns ret off len timer) s.fresh r t →
        (WritesRightly off len t.exchanges r ↔
          CountsOnce ret len t.exchanges ∧ StaysExpired t.exchanges) := by
  have hwp := wp_iotTlsWrite turns ret off timer hlen s
  have hoffers : ∀ p t, Steps anything (iotTlsWrite turns ret off len timer, s.fresh) (p, t) →
      OffersInside off len t.exchanges := by
    intro p t hsteps
    apply invariant_steps (D := writing off len)
      (I := fun t => OffersInside off len t.exchanges) _ hwp
      nofun hsteps
    exact fun _ _ ht hguar => hguar ht
  exact ⟨hoffers, fun r t hreturns => wp_returns hwp hreturns (hoffers _ _ hreturns)⟩

end Writes

/-! ## Two writes -/

/-- What the library and the clock are going to answer. -/
structure Schedule where
  results : List Int
  clock : List TimeVal

def Schedule.answer (e : Schedule) : (q : Query) → Answer q × Schedule
  | .sslRead n | .sslWrite _ n =>
      (⟨min (e.results.head?.getD 0) n, Int.min_le_right _ _⟩, { e with results := e.results.tail })
  | .getTimeOfDay => (e.clock.head?.getD ⟨0, 0⟩, { e with clock := e.clock.tail })

/-- A timer that expires after a second. -/
def oneSecond : Timer := ⟨⟨1, 0⟩⟩

def blankLink : Link := ⟨fun _ => 0, fun _ => 0, 0, []⟩

/-- A write of eight bytes of which the library accepts four at a time. -/
def writeEight (clock : List TimeVal) : Option (IotError × Nat) × Schedule × Link :=
  (iotTlsWrite 3 0 0 8 oneSecond).run Schedule.answer ⟨[4, 4], clock⟩ blankLink.fresh

theorem returns_writeEight {clock : List TimeVal} {r : IotError × Nat}
    (h : (writeEight clock).1 = some r) :
    Returns anything (iotTlsWrite 3 0 0 8 oneSecond) blankLink.fresh r (writeEight clock).2.2 :=
  returns_run (fun _ _ _ _ => trivial) (keepsTo_true _ _ _) h

theorem writesRightly_inTime :
    WritesRightly 0 8 (writeEight []).2.2.exchanges (.success, 8) := by
  have hiff := (writesRightly_iff 3 0 0 oneSecond (by decide : 8 < 2 ^ 64) blankLink).2 _ _
    (@returns_writeEight [] (.success, 8) (by decide))
  refine hiff.mpr ⟨.inl (by decide), fun h' heq => ?_⟩
  cases heq

/-- The clock that shows the second when the rest of the bytes is to be written. -/
def lateClock : List TimeVal := [⟨0, 0⟩, ⟨0, 0⟩, ⟨0, 0⟩, ⟨1, 0⟩, ⟨1, 0⟩]

/-- Four of eight bytes are accepted, and counted twice. -/
theorem not_writesRightly_late :
    Returns anything (iotTlsWrite 3 0 0 8 oneSecond) blankLink.fresh (.success, 8)
        (writeEight lateClock).2.2 ∧
      accepted (writeEight lateClock).2.2.exchanges = 4 ∧
      ¬ WritesRightly 0 8 (writeEight lateClock).2.2.exchanges (.success, 8) :=
  ⟨returns_writeEight (by decide), by decide, fun h => absurd h.written (by decide)⟩

end MqttClient.Network
