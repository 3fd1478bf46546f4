import LanguageServer.Proofs.Session.Discipline

/-!
# Whom a response answers

A response names the message that it answers by an identifier.  Identifiers are integers and texts;
where none can be trusted the response has null.  A message that is rejected for its method is the
one exception: its identifier is sent back before anything has looked at it.

## Main definitions

* `Json.isResponse`, `Json.IsAddressedTo` — a response on the wire, and whom it answers.
* `Session.isMislabelled` — a message that is rejected for its method and bears no identifier.
* `Session.Answers` — the responses sent so far bear identifiers of a kind.

## Main statements

* `Session.dispatch_keeps` — dispatching keeps what sending keeps.
* `Session.answers_process` — whom the responses to a message that is handled answer.
* `Session.receive_addressed` — whom the responses to any message answer.
-/

namespace LanguageServer

/-- Whether a message on the wire is a response: it has no method. -/
def Json.isResponse (m : Json) : Bool := (m.field? "method").isNone

/-- A response on the wire bears null, or the identifier of a message, which is an integer or a
text. -/
def Json.IsAddressedTo (m v : Json) : Prop :=
  ∃ id, m.field? "id" = some id ∧
    (id = .null ∨ v.field? "id" = some id ∧ Session.isIdentifier id = true)

/-- The identifier that a response bears. -/
def Outbound.id? : Outbound → Option Json
  | .result id _ => some id
  | .failure id _ => some id
  | _ => none

/-- A response bears its identifier on the wire. -/
theorem Outbound.exists_id_of_isResponse {m : Outbound} (h : m.toJson.isResponse = true) :
    ∃ id, m.id? = some id ∧ m.toJson.field? "id" = some id := by
  cases m with
  | result id value => exact ⟨id, rfl, rfl⟩
  | failure id error => exact ⟨id, rfl, rfl⟩
  | _ => simp [Json.isResponse, toJson, notification, protocolVersion, Table.findIn] at h

theorem Outbound.id?_of_not_isResponse {m : Outbound} (h : m.isResponse = false) : m.id? = none := by
  cases m <;> first | rfl | cases h

namespace Session

open Serving

variable {γ : Type} {I : Session γ → Prop} {s : Session γ}

/-! ## What dispatching keeps -/

/-- Dispatching keeps what sending and the lifecycle keep, whatever the state of the capabilities
is. -/
theorem dispatch_keeps (hI : IsLasting I) (hhost : ∀ s host, I s → I { s with host })
    (caps : Capabilities γ) (method : String) (params : Json) (isRequest : Bool) :
    Preserves I (dispatch caps method params isRequest) := by
  have hperform {α : Type} (a : Action γ α) : Preserves I (perform a) :=
    perform_preserves hI.toIsAmbient (J := fun _ => True)
      (fun _ _ => ⟨fun _ _ _ => trivial, trivial⟩) (fun _ _ => trivial) fun s host h _ => hhost s host h
  exact dispatch_preserves_of_handle caps
    (fun _ _ => handle_preserves_of_deed hI caps (fun a _ => hperform a) fun _ _ _ => hperform _)
    isRequest

/-! ## Responses that were sent -/

/-- What was sent behind an outbox are notifications, and responses with identifiers of a kind.  No
response is held back. -/
structure Answers (P : Json → Prop) (before : List Outbound) (s : Session γ) : Prop where
  held : HoldsNoResponse s
  sent : ∃ sent, s.outbox = before ++ sent ∧ ∀ m ∈ sent, ∀ id, m.id? = some id → P id

namespace Answers

variable {P : Json → Prop} {before : List Outbound}

theorem refl (hs : HoldsNoResponse s) : Answers P s.outbox s :=
  ⟨hs, [], by simp, fun _ => nofun⟩

/-- One more message, which bears no identifier or one of the kind. -/
theorem send (h : Answers P before s) {m : Outbound} (hm : ∀ id, m.id? = some id → P id) :
    Answers P before { s with outbox := s.outbox ++ [m] } := by
  obtain ⟨sent, hsent, hids⟩ := h.sent
  refine ⟨h.held, sent ++ [m], by simp only [hsent, List.append_assoc], fun m' hm' => ?_⟩
  rcases List.mem_append.1 hm' with hm' | hm'
  · exact hids m' hm'
  · exact List.mem_singleton.1 hm' ▸ hm

/-- A send that fails sends nothing. -/
theorem preserves_send {m : Outbound} (hm : ∀ id, m.id? = some id → P id) :
    Preserves (Answers (γ := γ) P before) (Serving.send m) := by
  intro s h
  cases hf : s.failing with
  | zero => simpa [after, Serving.send, hf] using h.send hm
  | succ n =>
    have hfailed : Answers P before { s with failing := n } := ⟨h.held, h.sent⟩
    simpa [after, Serving.send, hf] using hfailed

end Answers

section

variable {P : Json → Prop} {before : List Outbound}

theorem isLasting_answers : IsLasting (Answers (γ := γ) P before) where
  send _ _ hm h := h.send fun id hid => by
    rw [Outbound.id?_of_not_isResponse hm] at hid
    cases hid
  hold s uri version diagnostics h :=
    ⟨isLasting_holdsNoResponse.hold s uri version diagnostics h.held, h.sent⟩
  call _ _ h := ⟨h.held, h.sent⟩
  failing _ _ h := ⟨h.held, h.sent⟩
  trace _ _ h := ⟨h.held, h.sent⟩
  leave _ _ _ _ h := ⟨h.held, h.sent⟩

/-- What was held back are notifications. -/
theorem answers_sendAll {l : List Outbound} (hl : ∀ m ∈ l, m.isResponse = false) :
    Preserves (Answers (γ := γ) P before) (sendAll l) := by
  induction l with
  | nil => exact .pure ()
  | cons m rest ih =>
    obtain ⟨hm, hrest⟩ := List.forall_mem_cons.1 hl
    exact .bind (send_preserves isLasting_answers.toIsAmbient hm) fun _ => ih hrest

theorem answers_flush : Preserves (Answers (γ := γ) P before) flush := by
  intro s h
  have hemptied : Answers P before { s with deferred := [] } := ⟨fun _ => nofun, h.sent⟩
  unfold flush
  rw [after_bind, after_get]
  simp only [after_bind, after_update]
  exact answers_sendAll h.held _ hemptied

/-- The one response to a message bears its identifier. -/
theorem answers_respond {id : Option Json} (hid : ∀ i ∈ id, P i) (method : String)
    (x : Except Fault Json) :
    Preserves (Answers (γ := γ) P before) (respond id method x) := by
  have hlogged (level : LogLevel) (text : String) :
      Preserves (Answers (γ := γ) P before) (send (.log level text)) :=
    send_preserves isLasting_answers.toIsAmbient rfl
  cases id with
  | none =>
    cases x with
    | ok value => exact .pure ()
    | error f => cases f <;> first | exact .throw _ | exact hlogged _ _
  | some i =>
    have hown {m : Outbound} (hm : m.id? = some i) :
        Preserves (Answers (γ := γ) P before) (send m) :=
      Answers.preserves_send fun id' hid' => Option.some.inj (hm.symm.trans hid') ▸ hid i rfl
    cases x with
    | ok value => exact hown rfl
    | error f => cases f <;> first | exact .throw _ | exact hown rfl

/-- All responses that are sent while a message is handled with a method bear its identifier, wherever
the handling stops. -/
theorem answers_process (caps : Capabilities γ) {id : Option Json} (hid : ∀ i ∈ id, P i)
    (method : String) (params : Json) :
    Preserves (Answers (γ := γ) P before) (process caps id method params) := by
  have hdispatch : Preserves (Answers P before) (dispatch caps method params id.isSome) :=
    dispatch_keeps isLasting_answers (fun _ _ h => ⟨h.held, h.sent⟩) caps method params id.isSome
  have houtcome : Preserves (Answers P before) (outcome (dispatch caps method params id.isSome)) := by
    intro s h
    rw [after_outcome]
    exact hdispatch s h
  refine .bind (tell_preserves isLasting_answers.toIsAmbient _ _) fun _ =>
    .bind (.update fun s h => ⟨h.held, h.sent⟩) fun _ => .bind (fun s h => ?_) fun _ => answers_flush
  rw [after_eventually]
  have hresponded := Preserves.bind houtcome (fun x => answers_respond hid method x) s h
  exact ⟨hresponded.held, hresponded.sent⟩

end

/-! ## Any message -/

/-- Whether a message is rejected for its method, although it bears something that is no
identifier. -/
def isMislabelled : Json → Bool
  | .obj members =>
    !isClientResponse (.obj members) && !isText ((Json.obj members).fieldOrNull "method") &&
      ((Json.obj members).field? "id").any fun id => !id.isNull && !isIdentifier id
  | _ => false

theorem isIdentifier_of_methodOf? {v : Json} {method : String} (h : methodOf? v = some method) :
    ∀ id ∈ v.field? "id", isIdentifier id = true := by
  unfold methodOf? at h
  split at h
  · next members =>
    split at h
    · split at h
      · cases h
      · next hid =>
        intro id hmem
        rw [Option.mem_def] at hmem
        simpa [hmem] using hid
    · cases h
  · cases h

/-- A message that is handled is not mislabelled. -/
theorem isMislabelled_of_methodOf? {v : Json} {method : String} (h : methodOf? v = some method) :
    isMislabelled v = false := by
  unfold methodOf? at h
  split at h
  · next members =>
    unfold isMislabelled
    cases hmethod : (Json.obj members).fieldOrNull "method" with
    | str name => simp only [hmethod, isText, Bool.not_true, Bool.and_false, Bool.false_and]
    | _ => simp [hmethod] at h
  · cases h

/-- What a message with a method that is no text bears in the place of its identifier. -/
theorem echoed_cases {members : List (String × Json)}
    (hmethod : isText ((Json.obj members).fieldOrNull "method") = false)
    (hrequest : isClientResponse (.obj members) = false) :
    let id := ((Json.obj members).field? "id").getD .null
    (isMislabelled (.obj members) = false → id = .null ∨
      (Json.obj members).field? "id" = some id ∧ isIdentifier id = true) ∧
    (isMislabelled (.obj members) = true →
      (Json.obj members).field? "id" = some id ∧ id.isNull = false ∧ isIdentifier id = false) := by
  unfold isMislabelled
  simp only [hrequest, hmethod, Bool.not_false, Bool.true_and]
  cases (Json.obj members).field? "id" with
  | none => simp
  | some id => cases id <;> simp [isIdentifier, Json.isNull]

/-- A message that is not handled is ignored, or it is rejected with null or with what stands in the
place of its identifier. -/
theorem receive_rejected (caps : Capabilities γ) {v : Json} (h : methodOf? v = none) :
    isMislabelled v = false ∧ receive caps v = pure () ∨
      ∃ id e, receive caps v = send (.failure id e) ∧
        (isMislabelled v = false → id = .null ∨ v.field? "id" = some id ∧ isIdentifier id = true) ∧
        (isMislabelled v = true →
          v.field? "id" = some id ∧ id.isNull = false ∧ isIdentifier id = false) := by
  cases v with
  | obj members =>
    unfold methodOf? at h
    unfold receive
    simp only at h ⊢
    cases hmethod : (Json.obj members).fieldOrNull "method" with
    | str name =>
      simp only [hmethod] at h ⊢
      split at h
      · next hid =>
        refine .inr ⟨.null, _, by rw [if_pos hid]; rfl, fun _ => .inl rfl, fun hwrong => ?_⟩
        simp [isMislabelled, hmethod, isText] at hwrong
      · cases h
    | null =>
      by_cases hresponse : (((Json.obj members).field? "result").isSome ||
          ((Json.obj members).field? "error").isSome) = true
      · refine .inl ⟨?_, by simp only [if_pos hresponse]⟩
        simp only [isMislabelled, isClientResponse, hmethod, hresponse, Json.isNull, Bool.and_self,
          Bool.not_true, Bool.false_and]
      · refine .inr ⟨_, _, by simp only [if_neg hresponse]; rfl,
          echoed_cases (by rw [hmethod]; rfl) ?_⟩
        simpa [isClientResponse, hmethod, Json.isNull] using hresponse
    | _ => exact .inr ⟨_, _, rfl, echoed_cases (by rw [hmethod]; rfl)
        (by simp [isClientResponse, hmethod, Json.isNull])⟩
  | _ => exact .inr ⟨.null, _, rfl, fun _ => .inl rfl, fun hwrong => by cases hwrong⟩

/-- In every session that holds back no response, whatever its capabilities are and wherever sending
fails, each response that is sent for a message has null or the identifier of the message, which then
is an integer or a text, unless the message is mislabelled; and then, if it can be sent, one error is
sent with what stands in the place of the identifier. -/
theorem receive_addressed (caps : Capabilities γ) (v : Json) (hs : HoldsNoResponse s) :
    ∃ sent, ((receive caps v).after s).2.outbox = s.outbox ++ sent ∧
      (isMislabelled v = false →
        ∀ m ∈ sent, m.toJson.isResponse = true → m.toJson.IsAddressedTo v) ∧
      (isMislabelled v = true → s.failing = 0 → ∃ id e, sent = [.failure id e] ∧
        v.field? "id" = some id ∧ id.isNull = false ∧ isIdentifier id = false) := by
  cases hmethod : methodOf? v with
  | some method =>
    have hkept := answers_process caps (P := fun id => v.field? "id" = some id ∧
      isIdentifier id = true) (fun id hid => ⟨hid, isIdentifier_of_methodOf? hmethod id hid⟩)
      method (paramsOf v) s (.refl hs)
    rw [← receive_eq_process caps hmethod] at hkept
    obtain ⟨sent, hsent, hids⟩ := hkept.sent
    refine ⟨sent, hsent, fun _ m hm hresponse => ?_, fun hwrong => ?_⟩
    · obtain ⟨id, hid, hfield⟩ := Outbound.exists_id_of_isResponse hresponse
      exact ⟨id, hfield, .inr (hids m hm id hid)⟩
    · rw [isMislabelled_of_methodOf? hmethod] at hwrong
      cases hwrong
  | none =>
    rcases receive_rejected caps hmethod with ⟨hright, hreceive⟩ | ⟨id, e, hreceive, hright, hwrong⟩
    · refine ⟨[], by rw [hreceive, after_pure, List.append_nil], fun _ _ => nofun, fun h => ?_⟩
      rw [hright] at h
      cases h
    · have hkept := Answers.preserves_send (P := (· = id)) (m := .failure id e)
        (fun _ hid => (Option.some.inj hid).symm) s (.refl hs)
      rw [hreceive]
      obtain ⟨sent, hsent, hids⟩ := hkept.sent
      refine ⟨sent, hsent, fun h m hm hresponse => ?_, fun h hworks => ⟨id, e, ?_, hwrong h⟩⟩
      · obtain ⟨id', hid, hfield⟩ := Outbound.exists_id_of_isResponse hresponse
        obtain rfl := hids m hm id' hid
        exact ⟨id', hfield, hright h⟩
      · rw [after_send hworks] at hsent
        exact (List.append_cancel_left hsent).symm

/-- A session that tells everything, with something held back. -/
def talkative : Session (List Call) where
  lifecycle := .initialized
  trace := .verbose
  deferred := [.publish "c" none []]
  host := []

/-- The request to close a document, identified by a text. -/
def namedRequest : Json :=
  .obj [("id", .str "q"), ("method", .str Method.didClose.name),
    ("params", .obj [("textDocument", .obj [("uri", .str "b")])])]

/-- A request with a text as its identifier is answered with this text, among a trace, a log entry and
diagnostics. -/
theorem receive_addressed_talkative : ∃ sent,
    HoldsNoResponse talkative ∧ isMislabelled namedRequest = false ∧
      ((receive brittleCapabilities namedRequest).after talkative).2.outbox = sent ∧
      sent.map (·.toJson.isResponse) = [false, false, true, false, false, false] ∧
      ∀ m ∈ sent, m.toJson.isResponse = true → m.toJson.IsAddressedTo namedRequest := by
  have hheld : HoldsNoResponse talkative := by
    intro m hm
    obtain rfl := List.mem_singleton.1 hm
    rfl
  have hshape : ((receive brittleCapabilities namedRequest).after talkative).2.outbox.map
      (·.toJson.isResponse) = [false, false, true, false, false, false] := by
    decide +kernel
  obtain ⟨sent, hsent, hright, -⟩ := receive_addressed brittleCapabilities namedRequest hheld
  rw [hsent] at hshape
  exact ⟨sent, hheld, rfl, hsent, hshape, hright rfl⟩

end Session

end LanguageServer
