import EspBode.Verification.BufferBounds
import EspBode.Verification.Links
import EspBode.Verification.StaleBytes

/-!
# Two histories

Whether a request acts on its own bytes is a property of two runs: two histories of requests bring
the server to states with the same client, and the record that this client sends next is to bring
about the same in both. Two things are asked of it (`ActsOnItsBytes`):

* the same is seen. The first part of `Seen` is the text that is handed to the parser: a byte left
  over that is read there is interpreted, whether or not it changes a setting. Its second part is
  what a call of the loop puts out, without the calls on the listening server, whose port depends on
  how many links have ended;
* no index leaves a buffer. The handlers have no bounds check, so with a length that is too large
  the program reads on behind its buffer, or writes there. That is not the record's own any more,
  and what the program does then is not in its source. In the model both runs stop at the index, so
  that they would compare as the same although nothing is known of either.

Every request that is refused can be the last one of a history (`exists_reachable_of_refused`), so
what the bytes behind the received ones may be is not restricted, and the exact condition of the two
modules before carries over to runs (`actsOnItsBytes_iff`).
-/

namespace EspBode

open Buffer VxiRequest

/-! ### What is compared -/

/-- The action does not go to the listening server. -/
def Visible : VxiAction → Bool
  | .server _ => false
  | _ => true

/-- What is seen of a call of the loop. -/
structure Seen where
  /-- The text that is handed to the parser. -/
  text : Option (Except Fault (List UInt8))
  /-- The settings, the reply, and whether the client is stopped. -/
  outcome : Except Fault (List VxiAction)

/-- What is seen of a call of the loop with a client that brings a record. -/
def seen (awg : AwgServer) (s : VxiServer) (c : NetClient) (input : VxiServer.LoopInput) : Seen :=
  ⟨handedOver (requestIn s.vxiReadBuffer c),
    (fun r ↦ r.2.filter Visible) <$> s.loop awg input⟩

/-- **The record acts on its own bytes**: after any two histories that lead to this client, the same
is seen, and no index leaves a buffer. -/
def ActsOnItsBytes (awg : AwgServer) (c : NetClient) : Prop :=
  ∀ s s', Machine.Reachable (System.step awg) System.setup.1 s →
    Machine.Reachable (System.step awg) System.setup.1 s' →
      s.vxi.client = some c → s'.vxi.client = some c →
        ∀ input, seen awg s.vxi c input = seen awg s'.vxi c input ∧
          s.vxi.loop awg input ≠ .error .index

/-! ### What is seen is the effect -/

/-- The actions of an answer that are seen. -/
def visibleActions (a : Answer) : List VxiAction :=
  a.calls.map .set ++ .send a.reply :: if a.bClose then [.clientStop] else []

/-- An answer can be told from what is seen of it. -/
theorem visibleActions_injective : Function.Injective visibleActions := by
  rintro ⟨bClose, calls, reply⟩ ⟨bClose', calls', reply'⟩ h
  have hcalls : ∀ {calls calls' : List SetCall} {xs xs' : List VxiAction},
      calls.map .set ++ .send reply :: xs = calls'.map .set ++ .send reply' :: xs' →
        calls = calls' ∧ reply = reply' ∧ xs = xs' := by
    intro calls
    induction calls with
    | nil =>
      rintro (_ | ⟨call, calls'⟩) xs xs' h
      · simpa using h
      · simp at h
    | cons call calls ih =>
      rintro (_ | ⟨call', calls'⟩) xs xs' h
      · simp at h
      · obtain ⟨hcall, hrest⟩ := List.cons.inj h
        obtain ⟨rfl, rfl, rfl⟩ := ih hrest
        exact ⟨by rw [VxiAction.set.inj hcall], rfl, rfl⟩
  obtain ⟨rfl, rfl, hstop⟩ := hcalls h
  have hclose : bClose = bClose' := by
    cases bClose <;> cases bClose' <;> simp_all
  rw [hclose]

/-- What is seen of a served call. -/
theorem filter_visible_of_served {s : VxiServer} {c : NetClient} {r : VxiServer × List VxiAction}
    {a : Answer} (h : s.Served c r (some a)) : r.2.filter Visible = visibleActions a := by
  obtain ⟨t, -, -, hr⟩ := h
  rw [hr, List.filter_append]
  have hactions : (Answer.actions (some a)).filter Visible = Answer.actions (some a) :=
    List.filter_eq_self.2 fun action haction ↦ by
      have hquiet := VxiServer.quiet_actions (some a) action haction
      cases action with
      | server => exact hquiet.elim
      | _ => rfl
  have hclosing : (t.afterReply a.bClose).2.filter Visible =
      if a.bClose then [.clientStop] else [] := by
    cases a.bClose
    · rfl
    · show VxiAction.clientStop :: (List.map VxiAction.server _).filter Visible = [.clientStop]
      rw [List.filter_eq_nil_iff.2 fun action haction ↦ ?_]
      obtain ⟨call, -, rfl⟩ := List.mem_map.1 haction
      exact Bool.false_ne_true
  rw [hactions]
  show _ ++ (t.afterReply a.bClose).2.filter Visible = _
  rw [hclosing, visibleActions]
  show _ ++ [VxiAction.send a.reply] ++ _ = _
  rw [List.append_assoc]
  rfl

/-- **The same is seen exactly if the effects are the same.** -/
theorem seen_eq_iff {awg : AwgServer} {s s' : VxiServer} {c : NetClient}
    (hlen : 0 < (receive vxiReadSize c).len) (hs : s.client = some c) (hs' : s'.client = some c)
    (input : VxiServer.LoopInput) :
    seen awg s c input = seen awg s' c input ↔
      effect awg (requestIn s.vxiReadBuffer c) input.uninit =
        effect awg (requestIn s'.vxiReadBuffer c) input.uninit := by
  have houtcome : ∀ {t : VxiServer}, t.client = some c →
      (fun r ↦ r.2.filter Visible) <$> t.loop awg input =
        visibleActions <$> answer awg (requestIn t.vxiReadBuffer c) input.uninit := by
    intro t ht
    have hsim := VxiServer.loop_simulates awg ht input
    rw [serve, if_pos hlen] at hsim
    rcases ha : answer awg (requestIn t.vxiReadBuffer c) input.uninit with e | a
    · rw [ha] at hsim
      rw [show t.loop awg input = .error e from hsim]
      rfl
    · obtain ⟨r, hr, hserved⟩ := hsim.of_eq_ok (b := some a) (by rw [ha]; rfl)
      rw [hr, map_ok, map_ok, filter_visible_of_served hserved]
  have hinj : ∀ {x y : Except Fault Answer},
      visibleActions <$> x = visibleActions <$> y ↔ x = y := by
    intro x y
    rcases x with e | a <;> rcases y with e' | a'
    · simp
    · simp
    · simp
    · simp [visibleActions_injective.eq_iff]
  rw [seen, seen, houtcome hs, houtcome hs', Seen.mk.injEq, hinj, effect, effect, Effect.mk.injEq]

/-- **An index leaves a buffer exactly if it does in the effect.** -/
theorem loop_eq_index_iff {awg : AwgServer} {s : VxiServer} {c : NetClient}
    (hlen : 0 < (receive vxiReadSize c).len) (hs : s.client = some c)
    (input : VxiServer.LoopInput) : s.loop awg input = .error .index ↔
      (effect awg (requestIn s.vxiReadBuffer c) input.uninit).answer = .error .index := by
  rw [(VxiServer.loop_simulates awg hs input).eq_error_iff, serve, if_pos hlen, effect]
  rcases answer awg (requestIn s.vxiReadBuffer c) input.uninit with e | a <;> simp

/-! ### What histories leave behind -/

/-- A refused request leaves the read buffer as it was received. -/
theorem VxiServer.handlePacket_of_refused (awg : AwgServer) {s : VxiServer} (uninit : ℕ → Double)
    (h : Refused (s.vxiReadBuffer.bytes.drop prefixSize)) :
    ∃ response actions, s.handlePacket awg uninit =
      .ok (false, { s with vxiSendBuffer := response }, actions) := by
  rw [Refused, ← word_eq_wordAt, ← word_eq_wordAt] at h
  by_cases hprogram : program s.vxiReadBuffer ≠ Rpc.Program.vxi11Core.code
  · obtain ⟨response, hrefuse⟩ := refuse_eq s .progUnavail
    rw [handlePacket_eq, if_pos hprogram, hrefuse]
    exact ⟨response, _, rfl⟩
  · obtain ⟨response, hrefuse⟩ := refuse_eq s .procUnavail
    rw [handlePacket_of_not_handled (not_not.1 hprogram) (h.resolve_left hprogram), hrefuse]
    exact ⟨response, _, rfl⟩

/-- A call of the loop that refuses a request leaves the received request in the read buffer. -/
theorem VxiServer.loop_of_refused (awg : AwgServer) {s : VxiServer} {c : NetClient}
    (hc : s.client = some c) (hlen : 0 < (receive vxiReadSize c).len)
    (h : Refused ((requestIn s.vxiReadBuffer c).bytes.drop prefixSize)) (input : LoopInput) :
    ∃ s' actions, s.loop awg input = .ok (s', actions) ∧
      s'.client = some (receive vxiReadSize c).client ∧
      s'.vxiReadBuffer = requestIn s.vxiReadBuffer c := by
  obtain ⟨response, actions, hhandle⟩ := handlePacket_of_refused awg
    (s := { s with vxiReadBuffer := requestIn s.vxiReadBuffer c,
                   client := some (receive vxiReadSize c).client }) input.uninit h
  rw [loop_of_client hc, if_pos hlen, hhandle]
  exact ⟨_, _, rfl, rfl, rfl⟩

/-- A client in front of which there is a record that fills the buffer and arrives in full. -/
def behindRecord (r : Record) (c : NetClient) : NetClient :=
  { c with rx := r.bytes ++ c.rx, waits := 4 :: 252 :: c.waits }

theorem receive_behindRecord {r : Record} (hr : r.body.length = 252) (c : NetClient) :
    receive vxiReadSize (behindRecord r c) = ⟨252, beBytes r.lead ++ r.body, c⟩ := by
  have hread : (behindRecord r c).readBytes prefixSize =
      (beBytes r.lead, { c with rx := r.body ++ c.rx, waits := 252 :: c.waits }) := by
    show ((r.bytes ++ c.rx).take 4,
      { c with rx := (r.bytes ++ c.rx).drop 4, waits := 252 :: c.waits }) = _
    rw [Record.bytes, List.append_assoc, List.take_left' (length_beBytes _),
      List.drop_left' (length_beBytes _)]
  have hbody : NetClient.readBytes { c with rx := r.body ++ c.rx, waits := 252 :: c.waits } 252 =
      (r.body, c) := by
    show ((r.body ++ c.rx).take 252,
      { c with rx := (r.body ++ c.rx).drop 252, waits := c.waits }) = _
    rw [List.take_left' hr, List.drop_left' hr]
  have hfield : prefixField (behindRecord r c) = beBytes r.lead := by
    rw [prefixField, hread]
    exact List.append_nil _
  rw [receive, hfield, beWord_beBytes, r.declared, hr, hread]
  show Received.mk 252 (_ ++ (NetClient.readBytes _ 252).1) (NetClient.readBytes _ 252).2 = _
  rw [hbody]

/-- **Any request of 252 bytes that is refused can be what a history leaves behind**, whatever the
client sends next. -/
theorem exists_reachable_of_refused (awg : AwgServer) {body : List UInt8}
    (hbody : body.length = 252) (h : Refused body) (c : NetClient) :
    ∃ s, Machine.Reachable (System.step awg) System.setup.1 s ∧ s.vxi.client = some c ∧
      s.vxi.vxiReadBuffer.bytes.drop prefixSize = body := by
  have hreceive := receive_behindRecord
    (r := .lastFragment body (by rw [hbody]; decide)) hbody c
  set c₁ := behindRecord (.lastFragment body (by rw [hbody]; decide)) c
  have hreceived : received c₁ = body := by
    rw [received, hreceive]
    exact List.drop_left' (length_beBytes _)
  have hdrop : (requestIn (accepted c₁).vxi.vxiReadBuffer c₁).bytes.drop prefixSize = body := by
    rw [drop_requestIn, hreceived, hbody, List.drop_of_length_le (by rw [length_bytes]),
      List.append_nil]
  -- the connection is accepted, and then the record is refused
  have haccept : System.step awg System.setup.1 (.vxiLoop { offered := some c₁ }) =
      .ok (accepted c₁, [.vxi (.server (.available 9010))]) := rfl
  obtain ⟨vxi, actions, hloop, hclient, hbuffer⟩ := VxiServer.loop_of_refused awg
    (s := (accepted c₁).vxi) (c := c₁) rfl (by rw [hreceive]; exact Nat.zero_lt_succ _)
    (by rw [hdrop]; exact h) {}
  have hserve : System.step awg (accepted c₁) (.vxiLoop {}) =
      .ok ({ accepted c₁ with vxi }, actions.map .vxi) := by
    rw [System.step, hloop]
    rfl
  refine ⟨_, ((Machine.Reachable.refl _).next haccept).next hserve, ?_, ?_⟩
  · show vxi.client = some c
    rw [hclient, hreceive]
  · show vxi.vxiReadBuffer.bytes.drop prefixSize = body
    rw [hbuffer, hdrop]

/-- **A record acts on its own bytes exactly if the received bytes settle its effect.** -/
theorem actsOnItsBytes_iff {awg : AwgServer} {c : NetClient}
    (hlen : 0 < (receive vxiReadSize c).len) :
    ActsOnItsBytes awg c ↔ SelfContained awg (received c) := by
  constructor
  · intro h
    suffices hsettled : SettledEffect awg (fun _ ↦ .finite 0) (received c) from
      hsettled.selfContained (length_received_le c)
    intro e e' he he' hrefused hrefused'
    have hzeros : ∀ {e : List UInt8}, (received c).length + e.length = 252 →
        (List.replicate (received c).length 0 ++ e).length = 252 := by
      intro e he
      rw [List.length_append, List.length_replicate, he]
    obtain ⟨s, hs, hclient, hbytes⟩ := exists_reachable_of_refused awg (hzeros he) hrefused c
    obtain ⟨s', hs', hclient', hbytes'⟩ :=
      exists_reachable_of_refused awg (hzeros he') hrefused' c
    -- the received bytes lie over the zeros
    have hover : ∀ {b : Buffer vxiReadSize} {e : List UInt8},
        b.bytes.drop prefixSize = List.replicate (received c).length 0 ++ e →
          (requestIn b c).bytes.drop prefixSize = received c ++ e := by
      intro b e hb
      rw [drop_requestIn, ← List.drop_drop, hb, List.drop_left' List.length_replicate]
    obtain ⟨hseen, hindex⟩ := h s s' hs hs' hclient hclient' {}
    exact ⟨_, _, hover hbytes, hover hbytes',
      (seen_eq_iff hlen hclient hclient' {}).1 hseen,
      fun heffect ↦ hindex ((loop_eq_index_iff hlen hclient {}).2 heffect)⟩
  · intro h s s' _ _ hclient hclient' input
    obtain ⟨E, hindex, hE⟩ := h.effect_eq input.uninit
    have hreceived : ∀ b : Buffer vxiReadSize,
        received c <+: (requestIn b c).bytes.drop prefixSize := fun b ↦ by
      rw [drop_requestIn]
      exact List.prefix_append _ _
    rw [seen_eq_iff hlen hclient hclient' input, ne_eq, loop_eq_index_iff hlen hclient input,
      hE _ (hreceived _), hE _ (hreceived _)]
    exact ⟨rfl, hindex⟩

/-- A record of two bytes, which are not read. -/
def shortRecord : NetClient :=
  clientOf [1, 2] (by decide)

/-- A client that sends the given request, and then the record of two bytes. -/
def beforeShort (body : List UInt8) (h : body.length < 2 ^ 31) : NetClient :=
  .ofStream ((Record.lastFragment body h).bytes ++ shortRecord.rx)

/-- The record of two bytes brings about what the request before it did. -/
theorem acts_on_stale_bytes :
    ¬ ∀ c, 0 < (receive vxiReadSize c).len →
      ∀ s s', Machine.Reachable (System.step .base) System.setup.1 s →
        Machine.Reachable (System.step .base) System.setup.1 s' →
          s.vxi.client = some c → s'.vxi.client = some c → ∀ input,
            (seen .base s.vxi c input).outcome = (seen .base s'.vxi c input).outcome := by
  intro h
  -- one history ends with a request to read, the other one with a request for another program
  obtain ⟨⟨s, out⟩, hrun, hs⟩ := exists_of_map_eq_ok
    (f := fun r : System × List SystemAction ↦
      (r.1.vxi.client, (seen .base r.1.vxi shortRecord {}).outcome))
    (x := Machine.runFrom (System.step .base) System.setup.1
      [.vxiLoop { offered := some (beforeShort (plainRequest 7 .vxi11DevRead) (by decide)) },
        .vxiLoop {}])
    (b := (some shortRecord, .ok [.send (replyRecord 7 (Answer.readBody .base))]))
    (by decide +kernel)
  obtain ⟨⟨s', out'⟩, hrun', hs'⟩ := exists_of_map_eq_ok
    (f := fun r : System × List SystemAction ↦
      (r.1.vxi.client, (seen .base r.1.vxi shortRecord {}).outcome))
    (x := Machine.runFrom (System.step .base) System.setup.1
      [.vxiLoop { offered := some (beforeShort (callHeader 8 0 0) (by decide)) }, .vxiLoop {}])
    (b := (some shortRecord,
      .ok [.send (replyRecord 8 (beBytes Rpc.RpcStatus.progUnavail.code))]))
    (by decide +kernel)
  obtain ⟨hclient, houtcome⟩ := Prod.mk.inj hs
  obtain ⟨hclient', houtcome'⟩ := Prod.mk.inj hs'
  have heq := h shortRecord (by decide +kernel) s s' ⟨_, _, hrun⟩ ⟨_, _, hrun'⟩ hclient hclient' {}
  rw [houtcome, houtcome'] at heq
  exact absurd heq (by decide +kernel)

theorem actsOnItsBytes_iff_destroy :
    let c := clientOf (plainRequest 7 .vxi11DestroyLink) (by decide)
    ActsOnItsBytes .base c ↔ SelfContained .base (received c) :=
  actsOnItsBytes_iff (by decide +kernel)

end EspBode
