import LanguageServer.Proofs.Session.Core

/-!
# A session ends

A session reads one message after the other.  Each message takes at least one byte from the stream,
whether it can be decoded or not, so a session over finitely many bytes ends: by an exit, with the
stream, or where the capabilities give up the channel.  Up to then each message that is decoded is
handled once.

A stream may hand out fewer bytes of a body than are asked for, and then it counts as ended.  No two
reads of a session find the same number of bytes left, so what each of them hands out may be told by
what is left.

## Main definitions

* `ByteStream.MayReceive` — what reading a message may yield.
* `ByteStream.Reader` — a way to read messages.
* `Session.Runs` — the loop of a session ends.

## Main statements

* `Session.works_receive` — handling a message leaves the channel working.
* `Session.exists_runs`, `Session.Runs.unique` — the loop ends, in one way only.
* `Session.Runs.reads_le`, `Session.Runs.handled_eq` — how often it reads, and what it handles.
* `Session.runs_out` — all of this, for each input.
-/

namespace LanguageServer

/-! ## Reading -/

/-- The message that was received, if one was. -/
def Received.message? : Received → Option Json
  | .message v => some v
  | _ => none

namespace ByteStream

/-- What reading a message may yield: what is there, or the end of the stream if fewer bytes of the
body are handed out than are asked for. -/
inductive MayReceive (b : ByteStream) : Received → ByteStream → Prop
  | full : MayReceive b b.receive.1 b.receive.2
  | short {headers : Headers} {behind : ByteStream} {length : Int} {taken : Nat}
    (hheaders : b.readHeaders .empty = (.block headers, behind))
    (hlength : headers.contentLength? = some length) (hshort : taken < length) :
    MayReceive b .closed (behind.skip taken)

/-- A way to read messages: what comes of reading one, and the stream behind it. -/
structure Reader where
  read : ByteStream → Received × ByteStream
  may : ∀ b : ByteStream, b.MayReceive (read b).1 (read b).2

/-- The way to read messages that is never handed out less than there is. -/
def Reader.full : Reader := ⟨receive, fun _ => .full⟩

/-- What comes of reading some messages, one after the other. -/
def Reader.outcomes (r : Reader) : Nat → ByteStream → List Received
  | 0, _ => []
  | n + 1, b => (r.read b).1 :: r.outcomes n (r.read b).2

/-- Reads do not fail, and each length can be asked for. -/
structure IsSteady (b : ByteStream) : Prop where
  unbroken : b.breakAfter = none
  unbounded : b.longest = none

section

variable {b b' : ByteStream} {r : Received}

namespace IsSteady

theorem skip (h : b.IsSteady) (n : Nat) : (b.skip n).IsSteady := ⟨h.unbroken, h.unbounded⟩

theorem skipLine (h : b.IsSteady) : b.skipLine.IsSteady := ⟨h.unbroken, h.unbounded⟩

theorem isBroken (h : b.IsSteady) : b.isBroken = false := by
  rw [ByteStream.isBroken, h.unbroken]

theorem exceeds (h : b.IsSteady) (length : Int) : b.exceeds length = false := by
  rw [ByteStream.exceeds, h.unbounded]
  rfl

/-- Reading headers does not fail. -/
theorem readHeaders (h : b.IsSteady) (headers : Headers) :
    (b.readHeaders headers).1 ≠ .broken ∧ (b.readHeaders headers).2.IsSteady := by
  fun_induction ByteStream.readHeaders headers b with
  | case1 headers b hbroken => simp [h.isBroken] at hbroken
  | case2 => exact ⟨by simp, h⟩
  | case3 headers b _ _ text _ ih => exact ih h.skipLine
  | case4 => exact ⟨by simp, h.skipLine⟩
  | case5 headers b _ _ text _ _ ih => exact ih h.skipLine

theorem continues_decodeBody (body : List UInt8) : (decodeBody body).continues = true := by
  unfold decodeBody
  split <;> rfl

/-- Reading a body yields something, or the stream ends. -/
theorem readBody (h : b.IsSteady) (length : Int) :
    ((b.readBody length).1.continues = true ∨ (b.readBody length).1 = .closed) ∧
      (b.readBody length).2.IsSteady := by
  rw [ByteStream.readBody, h.isBroken, h.exceeds]
  simp only [Bool.false_eq_true, if_false]
  split
  · exact ⟨.inl (continues_decodeBody _), h.skip _⟩
  · split
    · exact ⟨.inr rfl, h.skip _⟩
    · exact ⟨.inl (continues_decodeBody _), h.skip _⟩

/-- Reading a message yields something, or the stream ends. -/
theorem receive (h : b.IsSteady) :
    (b.receive.1.continues = true ∨ b.receive.1 = .closed) ∧ b.receive.2.IsSteady := by
  obtain ⟨hheaders, hbehind⟩ := h.readHeaders .empty
  unfold ByteStream.receive
  split
  · next heq =>
    rw [heq] at hbehind
    exact ⟨.inr rfl, hbehind⟩
  · next heq =>
    rw [heq] at hheaders
    exact absurd rfl hheaders
  · next heq =>
    rw [heq] at hbehind
    split
    · exact ⟨.inl rfl, hbehind⟩
    · exact hbehind.readBody _

theorem mayReceive (h : b.IsSteady) (hr : b.MayReceive r b') :
    (r.continues = true ∨ r = .closed) ∧ b'.IsSteady := by
  cases hr with
  | full => exact h.receive
  | @short headers behind length taken hheaders hlength hshort =>
    have hbehind := (h.readHeaders .empty).2
    rw [hheaders] at hbehind
    exact ⟨.inr rfl, hbehind.skip taken⟩

end IsSteady

/-- A message takes at least one byte, also one that cannot be decoded. -/
theorem MayReceive.shorter (h : b.MayReceive r b') (hr : r.continues = true) :
    b'.rest.length < b.rest.length := by
  cases h with
  | full => exact length_receive_lt hr
  | short => cases hr

end

end ByteStream

/-! ## The channel keeps working -/

variable {γ α β : Type}

/-- The channel works: what is sent is accepted. -/
def Session.IsWorking (s : Session γ) : Prop := s.failing = 0

namespace Serving

/-- The operation leaves the channel working. -/
abbrev Works (x : Serving γ α) : Prop := Preserves Session.IsWorking x

theorem send_of_isWorking (m : Outbound) {s : Session γ} (h : s.IsWorking) :
    send m s = .ok () { s with outbox := s.outbox ++ [m] } := by
  unfold send
  rw [show s.failing = 0 from h]

theorem works_send (m : Outbound) : Works (send (γ := γ) m) := by
  intro s h
  rw [after_send h]
  exact h

theorem works_sendAll (l : List Outbound) : Works (sendAll (γ := γ) l) := by
  intro s h
  rw [after_sendAll h]
  exact h

theorem works_tell (message : String) (verbose : Option String) :
    Works (tell (γ := γ) message verbose) := by
  refine .bind .get fun s => ?_
  split
  · exact .pure ()
  · exact works_send _
  · exact works_send _

theorem works_hear (e : Effect) : Works (hear (γ := γ) e) := by
  cases e with
  | log level message => exact works_send _
  | trace message verbose => exact works_tell message verbose
  | engine call => exact .update fun _ h => h
  | publish uri version diagnostics =>
    show Works (push uri version diagnostics)
    unfold push
    split
    · exact .throw _
    · refine .bind .get fun s => ?_
      split
      · exact .update fun _ h => h
      · exact works_send _

theorem works_perform (a : Action γ α) : Works (perform a) := by
  have hall (l : List (Effect × γ)) : ∀ s : Session γ, s.IsWorking →
      (deliverAll hear s l).1.IsWorking := by
    induction l with
    | nil => exact fun _ h => h
    | cons entry rest ih =>
      intro s h
      have hheard := works_hear entry.1 s h
      rw [deliverAll_cons]
      cases hhear : (hear entry.1).after s with
      | mk result t =>
        rw [hhear] at hheard
        cases result with
        | ok u => exact ih t hheard
        | error e => exact hheard
  intro s h
  have hdelivered := hall (a.run s.host).said s h
  rw [after_perform]
  unfold Run.deliver
  cases hd : deliverAll hear s (a.run s.host).said with
  | mk t failure =>
    rw [hd] at hdelivered
    cases failure <;> exact hdelivered

theorem works_outcome {x : Serving γ α} (hx : Works x) : Works (outcome x) := by
  intro s h
  rw [after_outcome]
  exact hx s h

theorem works_eventually {x : Serving γ α} (hx : Works x) {f : Session γ → Session γ}
    (hf : ∀ s, s.IsWorking → (f s).IsWorking) : Works (eventually x f) := by
  intro s h
  rw [after_eventually]
  exact hf _ (hx s h)

end Serving

namespace Session

open Serving

theorem works_handle (caps : Capabilities γ) (m : Method) (params : Json) :
    Works (handle caps m params) := by
  by_cases hdelegated : m.isDelegated = true
  · intro s h
    rcases handle_delegated caps hdelegated params with ⟨a, -, hperform⟩ | ⟨-, e, hrefuse⟩
    · rw [hperform]
      exact works_perform a s h
    · rw [hrefuse]
      exact h
  · cases m with
    | initialise =>
      intro s h
      rcases handleInitialise_cases caps params s with ⟨f, hfail⟩ | ⟨root, folders, trace, hdone⟩
      · show ((handleInitialise caps params).after s).2.IsWorking
        rw [hfail]
        exact h
      · have hprepared := works_perform (caps.initialise root folders
          (params.fieldOrNull "initializationOptions")) s h
        show ((handleInitialise caps params).after s).2.IsWorking
        rw [hdone]
        split <;> simp_all [IsWorking]
    | shutdown => exact .bind (.update fun _ h => h) fun _ => .pure _
    | exit => exact .bind (.update fun _ h => h) fun _ => .pure _
    | setTrace =>
      show Works (handleSetTrace params)
      unfold handleSetTrace
      split
      · split
        · exact .bind (.update fun _ h => h) fun _ => .pure _
        · exact .throw _
      · exact .throw _
    | cancelRequest => exact .bind (works_tell _ _) fun _ => .pure _
    | _ => exact absurd rfl hdelegated

theorem works_dispatch (caps : Capabilities γ) (method : String) (params : Json)
    (isRequest : Bool) : Works (dispatch caps method params isRequest) :=
  dispatch_preserves_of_handle caps (fun m _ => works_handle caps m params) isRequest

theorem works_respond (id : Option Json) (method : String) (x : Except Fault Json) :
    Works (respond (γ := γ) id method x) := by
  cases x with
  | ok value =>
    cases id with
    | some id => exact works_send _
    | none => exact .pure ()
  | error f =>
    cases f with
    | channel reason => cases id <;> exact .throw _
    | _ => cases id <;> exact works_send _

/-- Handling a message leaves the channel working, whatever the capabilities do. -/
theorem works_receive (caps : Capabilities γ) (v : Json) : Works (receive caps v) := by
  cases hmethod : methodOf? v with
  | some method =>
    rw [receive_eq_process caps hmethod]
    refine .bind (works_tell _ _) fun _ => .bind (.update fun _ h => h) fun _ =>
      .bind (works_eventually ?_ fun _ h => h) fun _ => ?_
    · exact .bind (works_outcome (works_dispatch _ _ _ _)) fun _ => works_respond _ _ _
    · exact .bind .get fun _ => .bind (.update fun _ h => h) fun _ => works_sendAll _
  | none =>
    rcases receive_unhandled caps hmethod with ⟨-, hreceive⟩ | ⟨-, id, e, hreceive⟩
    · rw [hreceive]
      exact .pure ()
    · rw [hreceive]
      exact works_send _

/-! ## The loop -/

/-- The loop of a session over a stream ends.  It lists the messages that it handles, in order, and
counts how often it reads; in each turn, the outbox is empty at first. -/
inductive Runs (caps : Capabilities γ) (r : ByteStream.Reader) :
    Session γ → ByteStream → List Json → Nat → Session γ → Prop
  /-- The client has exited. -/
  | exited {s : Session γ} {b : ByteStream} (hexited : s.lifecycle = .exited) :
    Runs caps r s b [] 0 s
  /-- The stream has ended. -/
  | closed {s : Session γ} {b : ByteStream} (hgoes : s.lifecycle ≠ .exited)
    (hread : (r.read b).1 = .closed) : Runs caps r s b [] 1 s.cleared
  /-- A message is handled. -/
  | message {s t u : Session γ} {b : ByteStream} {v : Json} {vs : List Json} {n : Nat}
    (hgoes : s.lifecycle ≠ .exited) (hread : (r.read b).1 = .message v)
    (hhandled : receive caps v s.cleared = .ok () t) (hrest : Runs caps r t (r.read b).2 vs n u) :
    Runs caps r s b (v :: vs) (n + 1) u
  /-- A message is handled, and the capabilities give up the channel. -/
  | broken {s t : Session γ} {b : ByteStream} {v : Json} {reason : String}
    (hgoes : s.lifecycle ≠ .exited) (hread : (r.read b).1 = .message v)
    (hhandled : receive caps v s.cleared = .error (.channel reason) t) : Runs caps r s b [v] 1 t
  /-- A message that cannot be decoded is answered. -/
  | malformed {s t u : Session γ} {b : ByteStream} {reason : String} {vs : List Json} {n : Nat}
    (hgoes : s.lifecycle ≠ .exited) (hread : (r.read b).1 = .malformed reason)
    (hanswered : send (.failure .null (.of .parseError reason)) s.cleared = .ok () t)
    (hrest : Runs caps r t (r.read b).2 vs n u) : Runs caps r s b vs (n + 1) u

section

variable {caps : Capabilities γ} {r : ByteStream.Reader} {s t : Session γ} {b : ByteStream}
  {vs : List Json} {n : Nat}

/-- Each read but the last takes a byte. -/
theorem Runs.reads_le (h : Runs caps r s b vs n t) : n ≤ b.rest.length + 1 := by
  have hshorter : ∀ b : ByteStream, (r.read b).1.continues = true →
      (r.read b).2.rest.length < b.rest.length := fun b hr => (r.may b).shorter hr
  induction h with
  | exited => exact Nat.zero_le _
  | closed => exact Nat.le_add_left _ _
  | message _ hread _ _ ih =>
    have := hshorter _ (by rw [hread]; rfl)
    omega
  | broken => exact Nat.le_add_left _ _
  | malformed _ hread _ _ ih =>
    have := hshorter _ (by rw [hread]; rfl)
    omega

/-- Each message that is read is handled, once and in its turn. -/
theorem Runs.handled_eq (h : Runs caps r s b vs n t) :
    vs = (r.outcomes n b).filterMap Received.message? := by
  induction h with
  | exited => rfl
  | closed _ hread => simp [ByteStream.Reader.outcomes, hread, Received.message?]
  | message _ hread _ _ ih => simp [ByteStream.Reader.outcomes, hread, Received.message?, ← ih]
  | broken _ hread => simp [ByteStream.Reader.outcomes, hread, Received.message?]
  | malformed _ hread _ _ ih =>
    rw [ByteStream.Reader.outcomes, hread, List.filterMap_cons_none rfl]
    exact ih

/-- There is one way only in which the loop runs. -/
theorem Runs.unique (h : Runs caps r s b vs n t) {vs' : List Json} {n' : Nat} {t' : Session γ}
    (h' : Runs caps r s b vs' n' t') : vs' = vs ∧ n' = n ∧ t' = t := by
  induction h generalizing vs' n' t' with
  | exited hexited => cases h' <;> simp_all
  | closed hgoes hread => cases h' <;> simp_all
  | message hgoes hread hhandled hrest ih =>
    cases h' with
    | message _ hread' hhandled' hrest' =>
      obtain rfl := Received.message.inj (hread.symm.trans hread')
      obtain ⟨-, rfl⟩ := EStateM.Result.ok.inj (hhandled.symm.trans hhandled')
      obtain ⟨rfl, rfl, rfl⟩ := ih hrest'
      exact ⟨rfl, rfl, rfl⟩
    | _ => simp_all
  | broken hgoes hread hhandled => cases h' <;> simp_all
  | malformed hgoes hread hanswered hrest ih =>
    cases h' with
    | malformed _ hread' hanswered' hrest' =>
      obtain rfl := Received.malformed.inj (hread.symm.trans hread')
      obtain ⟨-, rfl⟩ := EStateM.Result.ok.inj (hanswered.symm.trans hanswered')
      exact ih hrest' |>.imp_right fun hmore => hmore.imp_left (congrArg (· + 1))
    | _ => simp_all

/-- The loop ends over each steady stream, if the channel works. -/
theorem exists_runs (caps : Capabilities γ) (r : ByteStream.Reader) (s : Session γ)
    (hs : s.IsWorking) (b : ByteStream) (hb : b.IsSteady) : ∃ vs n t, Runs caps r s b vs n t := by
  induction hlength : b.rest.length using Nat.strongRecOn generalizing s b with
  | _ length ih =>
    by_cases hexited : s.lifecycle = .exited
    · exact ⟨[], 0, s, .exited hexited⟩
    · obtain ⟨hyield, hsteady⟩ := hb.mayReceive (r.may b)
      have hshorter := (r.may b).shorter
      have hs : s.cleared.IsWorking := hs
      cases hread : (r.read b).1 with
      | message v =>
        rw [hread] at hshorter
        have hworking := works_receive caps v s.cleared hs
        cases hhandled : receive caps v s.cleared with
        | ok u t =>
          rw [after_of_ok hhandled] at hworking
          obtain ⟨vs, n, u, hruns⟩ := ih _ (hlength ▸ hshorter rfl) t hworking _ hsteady rfl
          exact ⟨v :: vs, n + 1, u, .message hexited hread hhandled hruns⟩
        | error f t =>
          have hafter : ((receive caps v).after s.cleared).1 = .error f := by rw [after, hhandled]
          obtain ⟨reason, rfl⟩ := failsAsChannel_receive caps v s.cleared f hafter
          exact ⟨[v], 1, t, .broken hexited hread hhandled⟩
      | malformed reason =>
        rw [hread] at hshorter
        have hsent := send_of_isWorking (.failure .null (.of .parseError reason)) hs
        obtain ⟨vs, n, u, hruns⟩ := ih _ (hlength ▸ hshorter rfl)
          { s.cleared with outbox := s.cleared.outbox ++ [_] } hs _ hsteady rfl
        exact ⟨vs, n + 1, u, .malformed hexited hread hsent hruns⟩
      | closed => exact ⟨[], 1, s.cleared, .closed hexited hread⟩
      | failed reason => simp [hread, Received.continues] at hyield
      | oversized => simp [hread, Received.continues] at hyield

theorem serve_eq_of_continues (hr : b.receive.1.continues = true) : serve caps s b =
    runAll caps s (.arrival b.receive.1 :: b.receive.2.receiveAll.1.map .arrival) := by
  rw [serve, ByteStream.receiveAll, dif_pos hr]
  rfl

/-- A session is served as its loop runs, where reads hand out all there is. -/
theorem Runs.serve_eq (h : Runs caps .full s b vs n t) :
    (serve caps s b).steps.length = n ∧ (serve caps s b).last = t ∧
      (serve caps s b).fault = none := by
  induction h with
  | @exited s b hexited =>
    unfold serve
    cases b.receiveAll.1.map Event.arrival with
    | nil => exact ⟨rfl, rfl, rfl⟩
    | cons e rest =>
      rw [runAll, if_pos hexited]
      exact ⟨rfl, rfl, rfl⟩
  | @closed s b hgoes hread =>
    have hread : b.receive.1 = .closed := hread
    have hserve : serve caps s b = runAll caps s [.arrival .closed] := by
      rw [serve, ByteStream.receiveAll, dif_neg (by rw [hread]; nofun), hread]
      rfl
    rw [hserve, runAll, if_neg hgoes]
    exact ⟨rfl, rfl, rfl⟩
  | @message s t u b v vs n hgoes hread hhandled hrest ih =>
    have hread : b.receive.1 = .message v := hread
    have hstep : step caps (.arrival (.message v)) s.cleared = .ok () t := hhandled
    rw [serve_eq_of_continues (by rw [hread]; rfl), hread, runAll, if_neg hgoes, hstep]
    exact ⟨congrArg (· + 1) ih.1, ih.2⟩
  | @broken s t b v reason hgoes hread hhandled =>
    have hread : b.receive.1 = .message v := hread
    have hstep : step caps (.arrival (.message v)) s.cleared = .error (.channel reason) t := hhandled
    rw [serve_eq_of_continues (by rw [hread]; rfl), hread, runAll, if_neg hgoes, hstep]
    exact ⟨rfl, rfl, rfl⟩
  | @malformed s t u b reason vs n hgoes hread hanswered hrest ih =>
    have hread : b.receive.1 = .malformed reason := hread
    have hstep : step caps (.arrival (.malformed reason)) s.cleared = .ok () t := hanswered
    rw [serve_eq_of_continues (by rw [hread]; rfl), hread, runAll, if_neg hgoes, hstep]
    exact ⟨congrArg (· + 1) ih.1, ih.2⟩

end

/-- The loop of a session ends for all bytes, all capabilities and all ways to hand out the bytes,
as long as the channel works.  It reads no more often than there are bytes, and once more; it
handles each message that was decoded, in order and once.  Where reads hand out all there is, this
is how the session is served. -/
theorem runs_out (caps : Capabilities γ) (r : ByteStream.Reader) (s : Session γ)
    (bytes : List UInt8) (hs : s.IsWorking) :
    ∃ vs n t, Runs caps r s { rest := bytes } vs n t ∧
      (∀ vs' n' t', Runs caps r s { rest := bytes } vs' n' t' → vs' = vs ∧ n' = n ∧ t' = t) ∧
      n ≤ bytes.length + 1 ∧
      vs = (r.outcomes n { rest := bytes }).filterMap Received.message? ∧
      (r = .full → (serve caps s { rest := bytes }).steps.length = n ∧
        (serve caps s { rest := bytes }).last = t ∧
        (serve caps s { rest := bytes }).fault = none) := by
  obtain ⟨vs, n, t, hruns⟩ := exists_runs caps r s hs { rest := bytes } ⟨rfl, rfl⟩
  refine ⟨vs, n, t, hruns, fun _ _ _ => hruns.unique, hruns.reads_le, hruns.handled_eq, ?_⟩
  rintro rfl
  exact hruns.serve_eq

/-- A header block that announces no length, and then the end, over capabilities that break down. -/
theorem runs_out_lengthless :
    ({ host := [] } : Session (List Call)).IsWorking ∧
    ∃ vs n t, Runs (Capabilities.scripted ⟨"toy", none⟩ { initialise := { breakdown := some "no" } })
      .full { host := [] } { rest := [67, 58, 10, 10] } vs n t ∧ n ≤ 5 := by
  obtain ⟨vs, n, t, hruns, -, hle, -⟩ := runs_out
    (Capabilities.scripted ⟨"toy", none⟩ { initialise := { breakdown := some "no" } }) .full
    { host := [] } [67, 58, 10, 10] rfl
  exact ⟨rfl, vs, n, t, hruns, hle⟩

end Session

end LanguageServer
