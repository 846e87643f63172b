import MqttClient.Session.Requests

/-! # Acknowledgements that come in turn

A SUBACK or an UNSUBACK comes in turn if it is read in the wait of the request
that it grants. A wait that succeeds has then ended on the packet that grants
its request, unless the packet cannot be taken apart.
-/

namespace MqttClient

open Effect Program

/-- The packets that acknowledge the change of a filter. -/
def MessageType.isGrant : MessageType → Bool
  | .suback | .unsuback => true
  | _ => false

/-- A SUBACK or UNSUBACK that comes grants the request that is being waited for,
and can be taken apart. A mutex that is held can be given back. -/
def grantsInTurn : (q : Query) → World → Answer q → Bool := fun q =>
  match q with
  | .netRead .body n => fun w (r : ReadResult n) =>
      let packetType := MessageType.ofNibble (headerType (w.client.readBuf 0))
      r.rc ≠ .success || !packetType.isGrant ||
        ((w.trace.awaiting.any fun request => Trace.grants request (packetType, r.bytes)) &&
          (w.client.withBody r.bytes).takesApart packetType)
  | .unlock _ => fun _ (givenBack : Bool) => givenBack
  | _ => fun _ _ => true

namespace Filters

theorem awaiting_of_opened {t t' : Trace} (h : t'.opened = t.opened) :
    t'.awaiting = t.awaiting := by
  rw [Trace.awaiting, h, Trace.awaiting]

section Waiting

variable {allow : Policy} {call : Call → M IotError} {packetType : MessageType}
  (hallow : ∀ q w a, allow q w a → grantsInTurn q w a = true)
  (htype : packetType.isGrant = true)

include hallow htype

theorem wp_readPacketBody_granted (remLen : Nat) (s : World) :
    wp (observed allow fun _ _ => True) (readPacketBody remLen)
      (fun r t => r = .ok packetType.code →
        t.trace.isGranted = t.client.takesApart packetType) s := by
  let field := writeLenToBuffer remLen
  let u := s.withLength field
  simp only [readPacketBody, wp_bind, wp_modify, solo_guar, true_and]
  unfold readRemaining
  split
  next hpos =>
    simp only [netReadToBuffer, wp_bind, wp_query, solo_pre, solo_allow, wp_modify, solo_guar,
      true_and, pure_eq, wp_ret]
    intro r hr
    split
    next hrc =>
      simp only [wp_bind, wp_getClient, wp_emit, true_and, wp_ret]
      intro hcode
      let v := u.filled .body (1 + field.length) r
      have hclient : v.client = u.client.withBody r.bytes := by
        simp only [v, World.filled, Client.withBody, ReadResult.length_bytes_of_success hrc]
        rfl
      have hheader : v.client.readBuf 0 = u.client.readBuf 0 := by
        rw [hclient]
        exact Acknowledgements.withBody_apply _ _ (by decide)
      have hreceived : MessageType.ofNibble (headerType (u.client.readBuf 0)) = packetType := by
        rw [← hheader, Except.ok.inj hcode, MessageType.ofNibble_code]
      -- the body that is read comes in turn
      have hr' : grantsInTurn (.netRead .body remLen) u r = true := hallow _ _ _ hr
      simp only [grantsInTurn, hrc, hreceived, htype, ne_eq, not_true_eq_false, decide_false,
        Bool.not_true, Bool.or_self, Bool.false_or, Bool.and_eq_true] at hr'
      have hlast : Trace.lastPacket (.received packetType :: v.trace) =
          some (packetType, r.bytes) := by
        have hoff : 1 + field.length ≠ 1 := by
          have hpos : 0 < field.length := length_writeLenToBuffer_pos remLen
          omega
        simp only [v, World.filled, World.trace_log, World.trace_onClient, hrc, Trace.lastPacket,
          if_neg hoff]
      change Trace.isGranted (.received (MessageType.ofNibble (headerType (v.client.readBuf 0))) ::
        v.trace) = v.client.takesApart packetType
      have hawaiting : Trace.awaiting (.received packetType :: v.trace) = u.trace.awaiting :=
        awaiting_of_opened rfl
      rw [hheader, hreceived, hclient, hr'.2, Trace.isGranted, hlast, hawaiting]
      exact hr'.1
    next => rintro ⟨⟩
  next hzero =>
    simp only [pure_eq, wp_ret, if_true, wp_bind, wp_getClient, wp_emit, true_and]
    intro _
    -- there is no body, so the packet can neither grant anything nor be taken apart
    have hfield : field = [UInt8.ofNat remLen] := writeLenToBuffer_of_lt (by omega)
    have hbyte : u.client.readBuf 1 = UInt8.ofNat remLen := by
      have hstored : u.client.readBuf = s.client.readBuf.store 1 field := rfl
      rw [hstored, hfield]
      rfl
    have hshort := Acknowledgements.takesApart_of_short packetType hbyte (by omega)
    change Trace.isGranted (.received _ :: .stored 1 _ :: s.trace) = u.client.takesApart packetType
    have hlast : ∀ type len older,
        Trace.lastPacket (.received type :: .stored 1 len :: older) = none := by
      intro type len older
      unfold Trace.lastPacket
      split
      next heq =>
        cases heq
        rfl
      next => rfl
    rw [hshort, Trace.isGranted, hlast]
    cases Trace.awaiting _ <;> rfl

/-- A wait that succeeds has ended on the packet that grants its request, if that
packet can be taken apart. -/
theorem wp_internalWaitForRead_granted (fuel : Nat) (s : World) :
    wp (observed allow fun _ _ => True) (internalWaitForRead fuel call packetType)
      (fun rc t => rc = .success → ∃ u : World, u.trace.isGranted = u.client.takesApart packetType ∧
        t = u.log (.leave (.waiting packetType) .success)) s := by
  have hack : packetType.isAck = true := by
    cases packetType <;> first | rfl | cases htype
  refine wp_internalWaitForRead_found (J := fun _ => True) hack fuel (fun t _ => ?_) trivial
  refine wp_mono (fun _ _ h => ⟨trivial, h⟩) (wp_internalCycleRead_found hack fuel .command ?_)
  intro u _
  refine wp_mono (fun r v hv hr => hv _ hr rfl)
    (wp_internalReadPacket (Φ := fun type v => type = packetType.code →
      v.trace.isGranted = v.client.takesApart packetType) fuel fun remLen v _ => ?_)
  refine wp_mono (fun r w hw type hr htype => ?_)
    (wp_readPacketBody_granted hallow htype remLen v)
  exact hw (by rw [hr, htype])

end Waiting

end Filters

end MqttClient
