import Mathlib.Data.Set.List
import EspBode.Foundations.Xdr
import EspBode.Verification.ReadReplies
import EspBode.Verification.Service

/-!
# Remote procedure calls

The VXI server as its clients see it: a client makes calls and gets their results. A call is sent as
a record with a header, the arguments, and data that is counted and filled up to a multiple of 4; a
result is decoded from the record that comes back, and a client that does not find its transaction
id, an accepted reply, success and no error there has no result at all (`Call.reply`).

`calls_return` says that whatever calls clients make, on however many connections, one after the
other, every call that is served returns the result that the operation has, and the settings that
are made are those of the lines that were written. The bytes that were sent are all read.

The client is written from the protocol. What it sends is put together from words and counted data,
and what it gets is read by the readers of the XDR library; the server's offsets do not occur in it.
That the two sides agree is shown once for each direction:

* **the request** (`isRequest_record`): the fields at the server's offsets are those that the client
  has put there, whatever the client is free to choose, which are its transaction id and its
  arguments. So a proper call is a complete request, and what it writes is a well-formed line.
* **the reply** (`reads_replyTo`): the client's readers go through the header and find the result.

A call is `Proper` if its data has room in the read buffer and a line is well-formed. These are the
conditions under which the server can be used; they are about the client alone.
-/

namespace EspBode

open Xdr Answer VxiRequest

/-! ### Calls -/

/-- What a client asks of the server. -/
inductive Operation
  | createLink (device : List UInt8)
  | write (line : List UInt8)
  | read
  | destroyLink
  deriving DecidableEq, Repr

/-- What it gets. -/
inductive Result
  | linked (linkId abortPort maxReceiveSize : UInt32)
  | written (size : UInt32)
  | data (reason : UInt32) (bytes : List UInt8)
  | destroyed
  deriving DecidableEq, Repr

/-- Data with its length in front, filled up to a multiple of 4. -/
def counted (data : List UInt8) : List UInt8 :=
  beBytes (UInt32.ofNat data.length) ++ (data ++ padding data.length)

namespace Operation

def procedure : Operation → Rpc.Procedure
  | createLink _ => .vxi11CreateLink
  | write _ => .vxi11DevWrite
  | read => .vxi11DevRead
  | destroyLink => .vxi11DestroyLink

/-- How many bytes of arguments stand in front of the data. -/
def argumentSize : Operation → ℕ
  | createLink _ => 12
  | write _ => 16
  | read => 24
  | destroyLink => 4

/-- The data of the request, as it is sent. -/
def data : Operation → List UInt8
  | createLink device => counted device
  | write line => counted line
  | read => []
  | destroyLink => []

/-- The data has room in the read buffer, with its terminator, and a line is well-formed. -/
def Proper : Operation → Prop
  | createLink device => device.length ≤ 195
  | write line => line.length ≤ 191 ∧ Scpi.WellFormed (withoutNewlines line)
  | read => True
  | destroyLink => True

/-- The result of the operation. -/
def result : Operation → Result
  | createLink _ => .linked 0 0 252
  | write line => .written (UInt32.ofNat line.length)
  | read => .data Rpc.Reason.end'.code AwgServer.base.id
  | destroyLink => .destroyed

/-- The settings that the operation makes. -/
def settings : Operation → List SetCall
  | write line => Scpi.settings (withoutNewlines line)
  | _ => []

/-- What a client decodes behind the header of a reply. -/
def results : Operation → Decoder Result
  | createLink _ => do
    let linkId ← word
    let abortPort ← word
    let maxReceiveSize ← word
    return .linked linkId abortPort maxReceiveSize
  | write _ => do
    let size ← word
    return .written size
  | read => do
    let reason ← word
    let len ← word
    let data ← bytes len.toNat
    let _ ← bytes (fill len.toNat)
    return .data reason data
  | destroyLink => return .destroyed

theorem length_counted (data : List UInt8) :
    (counted data).length = 4 + data.length + (4 - data.length % 4) % 4 := by
  rw [counted, List.length_append, List.length_append, length_beBytes, length_padding]
  omega

/-- A request fits the read buffer. -/
theorem Proper.length_le {op : Operation} (h : op.Proper) :
    40 + op.argumentSize + op.data.length ≤ 252 := by
  cases op with
  | createLink device =>
    have hle : device.length ≤ 195 := h
    show 40 + 12 + (counted device).length ≤ 252
    rw [length_counted]
    omega
  | write line =>
    have hle : line.length ≤ 191 := h.1
    show 40 + 16 + (counted line).length ≤ 252
    rw [length_counted]
    omega
  | read => decide
  | destroyLink => decide

end Operation

/-- A call: an operation, and what the client is free to choose. -/
structure Call where
  op : Operation
  xid : UInt32
  arguments : List UInt8
  argumentSize : arguments.length = op.argumentSize
  proper : op.Proper

namespace Call

variable (call : Call)

/-- The request. -/
def body : List UInt8 :=
  callHeader call.xid Rpc.Program.vxi11Core.code call.op.procedure.code ++
    (call.arguments ++ call.op.data)

theorem length_body : call.body.length = 40 + call.op.argumentSize + call.op.data.length := by
  rw [body, List.length_append, List.length_append, call.argumentSize, ← Nat.add_assoc]
  rfl

/-- The request as a record. -/
def record : Record :=
  .lastFragment call.body (by have := call.length_body; have := call.proper.length_le; omega)

/-- What the client makes of a reply. -/
def reply : Decoder Result := do
  let xid ← word
  let msgType ← word
  let replyState ← word
  let _ ← bytes 8
  let rpcStatus ← word
  let error ← word
  if xid = call.xid ∧ msgType = Rpc.MsgType.reply.code ∧
      replyState = Rpc.ReplyState.msgAccepted.code ∧ rpcStatus = Rpc.RpcStatus.success.code ∧
      error = Rpc.Error.noError.code then call.op.results
  else fun _ ↦ none

/-! ### The request -/

theorem field_header {i : ℕ} (h : i + 4 ≤ 40) : call.record.field i =
    wordAt (callHeader call.xid Rpc.Program.vxi11Core.code call.op.procedure.code) i :=
  wordAt_append_left (by show i + 4 ≤ 40; exact h)

theorem xid_record : call.record.xid = call.xid :=
  (call.field_header (by decide)).trans (beWord_beBytes _)

theorem program_record : call.record.program = Rpc.Program.vxi11Core.code :=
  (call.field_header (by decide)).trans (beWord_beBytes _)

theorem procedure_record : call.record.procedure = call.op.procedure.code :=
  (call.field_header (by decide)).trans (beWord_beBytes _)

theorem calls_record_iff (procedure : Rpc.Procedure) :
    call.record.Calls procedure ↔ call.op.procedure = procedure := by
  rw [Record.Calls, program_record, procedure_record, and_iff_right rfl]
  refine ⟨fun h ↦ ?_, congrArg _⟩
  revert h
  generalize call.op.procedure = p
  cases p <;> cases procedure <;> decide

theorem drop_body : call.body.drop (40 + call.op.argumentSize) = call.op.data := by
  rw [body, ← List.append_assoc]
  exact List.drop_left' (by rw [List.length_append, call.argumentSize]; rfl)

/-- The word in front of the data counts it. -/
theorem field_data {data : List UInt8} (h : call.op.data = counted data) :
    call.record.field (40 + call.op.argumentSize) = UInt32.ofNat data.length := by
  show beWord ((call.body.drop _).take 4) = _
  rw [drop_body, h, counted, List.take_left' (length_beBytes _), beWord_beBytes]

/-- Behind it stands the data. -/
theorem take_data {data : List UInt8} (h : call.op.data = counted data) :
    (call.body.drop (40 + call.op.argumentSize + 4)).take data.length = data := by
  rw [← List.drop_drop, drop_body, h, counted, List.drop_left' (length_beBytes _), List.take_left]

theorem length_data {data : List UInt8} (h : call.op.data = counted data)
    (hle : data.length ≤ 195) :
    (call.record.field (40 + call.op.argumentSize)).toNat = data.length ∧
      40 + call.op.argumentSize + 4 + data.length ≤ call.record.body.length := by
  refine ⟨?_, ?_⟩
  · rw [field_data call h]
    exact UInt32.toNat_ofNat_of_lt' (by show _ < 2 ^ 32; omega)
  · show _ ≤ call.body.length
    rw [length_body, h, Operation.length_counted]
    omega

section Operations

variable {call} {device line : List UInt8}

theorem createDataLen_record (h : call.op = .createLink device) :
    call.record.createDataLen = device.length ∧
      56 + device.length ≤ call.record.body.length ∧ device.length ≤ 195 := by
  have hle : device.length ≤ 195 := (h ▸ call.proper : (Operation.createLink device).Proper)
  have hlen := call.length_data (show _ = counted device by rw [h]; rfl) hle
  rw [h] at hlen
  exact ⟨hlen.1, hlen.2, hle⟩

theorem writeData_record (h : call.op = .write line) :
    call.record.writeDataLen = line.length ∧ 60 + line.length ≤ call.record.body.length ∧
      call.record.writeData = line := by
  have hle : (Operation.write line).Proper := h ▸ call.proper
  have hdata : call.op.data = counted line := by rw [h]; rfl
  have hlen := call.length_data hdata (by have := hle.1; omega)
  have htake := call.take_data hdata
  rw [h] at hlen htake
  refine ⟨hlen.1, hlen.2, ?_⟩
  rw [Record.writeData, show call.record.writeDataLen = _ from hlen.1]
  exact htake

/-- A line without NUL bytes is parsed as it is. -/
theorem writePayload_record (h : call.op = .write line) :
    call.record.writePayload = withoutNewlines line := by
  have hproper : (Operation.write line).Proper := h ▸ call.proper
  rw [Record.writePayload, (writeData_record h).2.2, List.takeWhile_eq_self_iff]
  intro b hb
  exact bne_iff_ne.2 fun h0 ↦ hproper.2.nulFree (h0 ▸ hb)

theorem op_of_calls_createLink (h : call.record.Calls .vxi11CreateLink) :
    ∃ device, call.op = .createLink device := by
  have hprocedure := (call.calls_record_iff _).1 h
  rcases hop : call.op with device | line | _ | _ <;> rw [hop] at hprocedure <;> cases hprocedure
  exact ⟨device, rfl⟩

theorem op_of_calls_devWrite (h : call.record.Calls .vxi11DevWrite) :
    ∃ line, call.op = .write line := by
  have hprocedure := (call.calls_record_iff _).1 h
  rcases hop : call.op with device | line | _ | _ <;> rw [hop] at hprocedure <;> cases hprocedure
  exact ⟨line, rfl⟩

end Operations

/-- **A call is a request.** -/
theorem isRequest_record : IsRequest call.record := by
  have hwellFormed : call.record.Calls .vxi11DevWrite →
      Scpi.WellFormed call.record.writePayload := by
    intro hw
    obtain ⟨line, hop⟩ := op_of_calls_devWrite hw
    rw [writePayload_record hop]
    exact (hop ▸ call.proper : (Operation.write line).Proper).2
  have hlen : call.record.body.length = _ := call.length_body
  have hle := call.proper.length_le
  refine ⟨⟨by omega, by omega, fun hc ↦ ?_, fun hw ↦ ?_, fun hw ↦ ?_⟩, hwellFormed⟩
  · obtain ⟨device, hop⟩ := op_of_calls_createLink hc
    obtain ⟨hdata, hbody, hdevice⟩ := createDataLen_record hop
    rw [hdata]
    exact ⟨hbody, by show _ < 256; omega⟩
  · obtain ⟨line, hop⟩ := op_of_calls_devWrite hw
    obtain ⟨hdata, hbody, -⟩ := writeData_record hop
    have hline := (hop ▸ call.proper : (Operation.write line).Proper).1
    rw [hdata]
    exact ⟨hbody, by show _ < 256; omega⟩
  · exact parserReturns_of_wellFormed (hwellFormed hw)

theorem requestedSettings_record : requestedSettings call.record = call.op.settings := by
  rw [requestedSettings]
  split_ifs with hw
  · obtain ⟨line, hop⟩ := op_of_calls_devWrite hw
    rw [writePayload_record hop, hop]
    rfl
  · rcases hop : call.op with device | line | _ | _
    · rfl
    · exact absurd ((call.calls_record_iff _).2 (by rw [hop]; rfl)) hw
    · rfl
    · rfl

/-! ### The reply -/

/-- A client finds its transaction id, success and no error, and goes on to the result. -/
theorem reads_reply {rest : List UInt8} {result : Result}
    (h : Reads call.op.results rest result) :
    Reads call.reply (replyHeader call.xid ++ (noError ++ rest)) result := by
  rw [replyHeader, noError]
  simp only [List.append_assoc]
  refine (reads_word _).bind ?_
  refine (reads_word _).bind ?_
  refine (reads_word _).bind ?_
  rw [← List.append_assoc]
  refine (reads_bytes (by rfl)).bind ?_
  refine (reads_word _).bind ?_
  refine (reads_word _).bind ?_
  rwa [if_pos ⟨rfl, rfl, rfl, rfl, rfl⟩]

/-- The body of a reply, by what is asked for. -/
theorem reads_results : ∃ results, replyBody call.record = noError ++ results ∧
    results.length ≤ 32 ∧
    Reads call.op.results (results ++ padding (28 + results.length)) call.op.result := by
  rw [replyBody, if_neg (not_not.2 call.program_record), call.procedure_record]
  rcases hop : call.op with device | line | _ | _
  · refine ⟨beBytes 0 ++ (beBytes 0 ++ beBytes 252), rfl, by decide, ?_⟩
    exact (reads_word _).bind ((reads_word _).bind ((reads_word _).bind (reads_pure _)))
  · refine ⟨beBytes (UInt32.ofNat line.length), ?_, by rw [length_beBytes]; decide, ?_⟩
    · rw [← (writeData_record hop).1, Record.writeDataLen, UInt32.ofNat_toNat]
      rfl
    · rw [length_beBytes]
      exact (reads_word _).bind (reads_pure _)
  · refine ⟨beBytes Rpc.Reason.end'.code ++ (beBytes 21 ++ AwgServer.base.id), rfl, by decide, ?_⟩
    have hdata : AwgServer.base.id.length = (21 : UInt32).toNat := rfl
    have hfill : (padding 57).length = fill (21 : UInt32).toNat := rfl
    rw [List.append_assoc, List.append_assoc]
    refine (reads_word _).bind ?_
    refine (reads_word _).bind ?_
    refine (reads_bytes hdata).bind ?_
    exact (reads_bytes hfill).bind (reads_pure _)
  · exact ⟨[], rfl, by decide, reads_pure _⟩

/-- **A reply is read as the result.** -/
theorem reads_replyTo : Reads (message call.reply) (replyTo call.record) call.op.result := by
  obtain ⟨results, hbody, hlen, hreads⟩ := call.reads_results
  have hbodyLength : (replyBody call.record).length = 8 + results.length := by
    rw [hbody, List.length_append]
    rfl
  have hpayload := length_replyPayload call.record.xid (replyBody call.record)
  refine Reads.message (toNat_lead (by omega)) ?_
  rw [replyPayload, hbodyLength, hbody, call.xid_record]
  simp only [List.append_assoc, ← Nat.add_assoc]
  exact call.reads_reply hreads

end Call

/-- What a client makes of the replies to its calls. -/
def replies : List Call → Decoder (List Result)
  | [] => return []
  | call :: calls => do
    let result ← message call.reply
    return result :: (← replies calls)

theorem reads_replies (calls : List Call) :
    Reads (replies calls) ((calls.map Call.record).flatMap replyTo) (calls.map (·.op.result)) := by
  induction calls with
  | nil => exact reads_pure _
  | cons call calls ih =>
    rw [List.map_cons, List.flatMap_cons, List.map_cons,
      ← List.append_nil ((calls.map Call.record).flatMap replyTo)]
    exact call.reads_replyTo.bind (ih.bind (reads_pure _))

/-! ### Runs -/

/-- The settings that are made. -/
def settingsMade (actions : List VxiAction) : List SetCall :=
  actions.filterMap fun
    | .set call => some call
    | _ => none

theorem sent_effects (r : Record) : sent (effects r) = [replyTo r] := by
  rw [effects, sent_append, sent, List.filterMap_map]
  exact congrArg (· ++ _) (List.filterMap_eq_nil_iff.2 fun _ _ ↦ rfl)

theorem settingsMade_effects (r : Record) : settingsMade (effects r) = requestedSettings r := by
  rw [effects, settingsMade, List.filterMap_append, List.filterMap_map]
  exact (congrArg (· ++ _) List.filterMap_some).trans (List.append_nil _)

theorem sent_flatMap_effects (rs : List Record) : (sent (rs.flatMap effects)).flatten =
    rs.flatMap replyTo := by
  rw [sent, List.filterMap_flatMap]
  show (rs.flatMap fun r ↦ sent (effects r)).flatten = _
  simp only [sent_effects]
  rw [← List.map_eq_flatMap, List.flatMap_def]

theorem settingsMade_flatMap_effects (rs : List Record) :
    settingsMade (rs.flatMap effects) = rs.flatMap requestedSettings := by
  rw [settingsMade, List.filterMap_flatMap]
  exact congrArg (rs.flatMap ·) (funext settingsMade_effects)

namespace Service

theorem mem_of_mem_answered {rs : List Record} {r : Record} (h : r ∈ answered rs) : r ∈ rs := by
  induction rs with
  | nil => exact h
  | cons r' rs ih =>
    rw [answered] at h
    split_ifs at h
    · exact List.mem_cons.2 (.inl (List.mem_singleton.1 h))
    · exact (List.mem_cons.1 h).elim (fun heq ↦ List.mem_cons.2 (.inl heq)) fun hrest ↦
        List.mem_cons_of_mem _ (ih hrest)

/-- What is served was brought by a client. -/
theorem exists_offer_of_mem_served {events : List ServiceEvent} {r : Record}
    (h : r ∈ served events) : ∃ event ∈ events, ∃ rs ∈ event.offer, r ∈ rs := by
  obtain ⟨accepted, haccepted, hserved⟩ := exists_accepted events none
  have hr : r ∈ accepted.flatMap answered :=
    (show _ = accepted.flatMap answered from hserved) ▸ List.mem_append_left _ h
  obtain ⟨rs, hrs, hmem⟩ := List.mem_flatMap.1 hr
  obtain ⟨event, hevent, hoffer⟩ := List.mem_filterMap.1 (haccepted.subset hrs)
  exact ⟨event, hevent, rs, hoffer, mem_of_mem_answered hmem⟩

end Service

/-- **Calls return**, over every run in which the clients make calls. -/
theorem calls_return {events : List ServiceEvent}
    (h : ∀ event ∈ events, ∀ rs ∈ event.offer, ∀ r ∈ rs, r ∈ Set.range Call.record) :
    ∃ s out, ∃ calls : List Call,
      Machine.runFrom (System.step .base) System.setup.1 (events.map ServiceEvent.toSystem) =
        .ok (s, out) ∧
      Service.served events = calls.map Call.record ∧
      replies calls (sent (out.filterMap vxiEffect)).flatten =
        some (calls.map (·.op.result), []) ∧
      settingsMade (out.filterMap vxiEffect) = calls.flatMap (·.op.settings) := by
  have hbrings : ∀ event ∈ events, event.Brings := by
    intro event hevent rs hrs r hr
    obtain ⟨call, rfl⟩ := h event hevent rs hrs r hr
    exact call.isRequest_record
  obtain ⟨s, out, hrun, -, hout⟩ :=
    Service.follows_service.run Service.stands_setup hbrings
  have hserved : Service.served events ∈ Set.range (List.map Call.record) := by
    rw [Set.range_list_map]
    intro r hr
    obtain ⟨event, hevent, rs, hrs, hmem⟩ := Service.exists_offer_of_mem_served hr
    exact h event hevent rs hrs r hmem
  obtain ⟨calls, hcalls⟩ := hserved
  have heffects : out.filterMap vxiEffect = (calls.map Call.record).flatMap effects := by
    rw [hcalls]
    exact hout
  refine ⟨s, out, calls, hrun, hcalls.symm, ?_, ?_⟩
  · rw [heffects, sent_flatMap_effects, ← List.append_nil (List.flatMap _ _)]
    exact reads_replies calls []
  · rw [heffects, settingsMade_flatMap_effects, List.flatMap_map]
    exact congrArg (calls.flatMap ·) (funext Call.requestedSettings_record)

/-- A client creates the link, writes a line, reads the identification, and destroys the link. -/
def exampleCalls : List Call :=
  [⟨.createLink (ascii "inst0"), 1, List.replicate 12 0, rfl, Nat.le_of_ble_eq_true rfl⟩,
    ⟨.write exampleLine, 2, List.replicate 16 0, rfl, by decide +kernel, wellFormed_exampleLine⟩,
    ⟨.read, 3, List.replicate 24 0, rfl, trivial⟩,
    ⟨.destroyLink, 4, List.replicate 4 0, rfl, trivial⟩]

/-- Two of the clients, one after the other. -/
def callRun : List ServiceEvent :=
  .vxiLoop (some (exampleCalls.map Call.record)) (fun _ ↦ .nan) ::
    List.replicate 4 (.vxiLoop none fun _ ↦ .nan) ++
  .vxiLoop (some (exampleCalls.map Call.record)) (fun _ ↦ .nan) ::
    List.replicate 4 (.vxiLoop none fun _ ↦ .nan)

theorem calls_return_callRun :
    ∃ s out, ∃ calls : List Call,
      Machine.runFrom (System.step .base) System.setup.1 (callRun.map ServiceEvent.toSystem) =
        .ok (s, out) ∧
      (exampleCalls ++ exampleCalls).map Call.record = calls.map Call.record ∧
      replies calls (sent (out.filterMap vxiEffect)).flatten =
        some (calls.map (·.op.result), []) ∧
      settingsMade (out.filterMap vxiEffect) = calls.flatMap (·.op.settings) := by
  have hcalls : ∀ event ∈ callRun, ∀ rs ∈ event.offer, ∀ r ∈ rs, r ∈ Set.range Call.record := by
    intro event hevent rs hrs r hr
    simp only [callRun, List.cons_append, List.mem_append, List.mem_cons, List.mem_replicate]
      at hevent
    obtain rfl | ⟨-, rfl⟩ | rfl | ⟨-, rfl⟩ := hevent <;> cases hrs
    all_goals
      obtain ⟨call, -, rfl⟩ := List.mem_map.1 hr
      exact ⟨call, rfl⟩
  exact calls_return hcalls

end EspBode
