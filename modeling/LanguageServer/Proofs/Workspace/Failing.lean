import LanguageServer.Navigation
import LanguageServer.Proofs.Action.Failing
import LanguageServer.Workspace.Garbage

/-!
# How compiling and publishing fail

Compiling, publishing, collecting and looking places up fail only because of what is found
on the way: a path or a URI, the engine, a source that is not known.  None of them answers
a request or speaks for the channel, whatever the engine does.

## Main statements

* `failsInside_compile`, `failsInside_validateAll`, `failsInside_collectGarbage` — what changes ask for.
* `failsInside_definition`, `failsInside_references`, `failsInside_highlights` — what queries ask for.
-/

namespace LanguageServer

open Workspace

variable {env : Environment}

/-! ## Translating places -/

theorem failsInside_indexOf (name : String) : (indexOf name).FailsInside :=
  .bind .state fun _ => .bind (.update _) fun _ => .pure _

theorem failsInside_uriOf (name : String) : (uriOf name).FailsInside :=
  .bind .state fun _ => .inner (fun _ => rfl) _

theorem failsInside_toRange (l : SourceLocation) : (toRange l).FailsInside :=
  .bind (failsInside_indexOf _) fun _ => .pure _

theorem failsInside_toLocation (l : SourceLocation) : (toLocation l).FailsInside := by
  refine .bind (failsInside_toRange l) fun range => ?_
  cases range with
  | none => exact .pure none
  | some range => exact .bind (failsInside_uriOf _) fun _ => .pure _

/-! ## Compiling and publishing -/

theorem failsInside_serveSource (files : FileSystem) (kind path : String) :
    (serveSource files kind path).FailsInside := by
  unfold serveSource
  split
  · exact .pure _
  · refine .bind .state fun ws => ?_
    split
    · exact .pure _
    · exact .bind (.inner (fun _ => rfl) _) fun _ => .bind (.update _) fun _ => .pure _

/-- Whatever an engine asks and however it ends, serving it answers nothing. -/
theorem failsInside_serve (files : FileSystem) (c : Compilation) :
    (serve files c).FailsInside := by
  induction c with
  | done program => exact .pure program
  | failed reason => exact .stop rfl
  | unfinished => exact .stop rfl
  | ask kind path next ih =>
    exact .bind (failsInside_serveSource files kind path) fun outcome =>
      .bind (.say _) fun _ => ih outcome

theorem failsInside_offerVersion (engine : Engine) (version : Option String) :
    (offerVersion engine version).FailsInside := by
  unfold offerVersion
  split
  · exact .pure _
  · refine .bind .state fun ws => ?_
    split
    · exact .bind (.update _) fun _ => .bind (.say _) fun _ => .pure _
    · exact .pure _

theorem failsInside_compile : (compile env).FailsInside :=
  .bind .state fun _ => .bind (.update _) fun _ => .bind (.inner (fun _ => rfl) _) fun _ =>
    .bind (.update _) fun _ => .bind (.say _) fun _ => .bind (.say _) fun _ => .bind (.say _) fun _ =>
      .bind (failsInside_offerVersion _ _) fun _ => .bind (failsInside_serve _ _) fun _ =>
        .bind (.update _) fun _ => .pure _

theorem failsInside_upToDate : (upToDate env).FailsInside := by
  refine .bind .state fun ws => ?_
  split
  · split
    · exact .pure _
    · exact failsInside_compile
  · exact failsInside_compile

theorem failsInside_toRelatedAll (l : List RelatedPlace) : (toRelatedAll l).FailsInside := by
  induction l with
  | nil => exact .pure []
  | cons r rest ih =>
    exact .bind (.bind (failsInside_toLocation _) fun _ => .pure _) fun _ =>
      .bind ih fun _ => .pure _

theorem failsInside_toDiagnostic (reporter : String) (f : Finding) :
    (toDiagnostic reporter f).FailsInside := by
  unfold toDiagnostic
  split
  · exact .pure none
  · refine .bind (failsInside_toRange _) fun range => ?_
    split
    · exact .pure none
    · exact .bind (failsInside_toRelatedAll _) fun _ => .pure _

theorem failsInside_sortFindings (reporter : String) (t : DiagnosticTable) (l : List Finding) :
    (sortFindings reporter t l).FailsInside := by
  induction l generalizing t with
  | nil => exact .pure t
  | cons f rest ih =>
    refine .bind (failsInside_toDiagnostic reporter f) fun d => ?_
    split
    · exact .bind (failsInside_uriOf _) fun _ => ih _
    · exact .bind (.say _) fun _ => ih _

theorem failsInside_diagnosticsByUri (program : Program) :
    (diagnosticsByUri env program).FailsInside :=
  .bind .state fun _ => failsInside_sortFindings _ _ _

theorem failsInside_publish (uri : String) (version : Option Int)
    (diagnostics : List Diagnostic) : (publish uri version diagnostics).FailsInside :=
  .bind (.say _) fun _ => .update _

theorem failsInside_validate (uri : String) : (validate env uri).FailsInside :=
  .bind .state fun _ => .bind (.inner (fun _ => rfl) _) fun _ => .bind failsInside_compile fun _ =>
    .bind (failsInside_diagnosticsByUri _) fun _ => failsInside_publish _ _ _

theorem failsInside_validateAll : (validateAll env).FailsInside :=
  .bind failsInside_compile fun _ => .bind (failsInside_diagnosticsByUri _) fun _ =>
    .bind .state fun _ =>
      .forAll (fun _ => .bind .state fun _ => failsInside_publish _ _ _) _

theorem failsInside_collectGarbage : collectGarbage.FailsInside := by
  refine .bind .state fun ws => ?_
  split
  · exact .pure []
  · exact .bind (.inner (fun _ => rfl) _) fun _ => .bind (.inner (fun _ => rfl) _) fun _ =>
      .bind (.update _) fun _ => .bind (.forAll (fun _ => failsInside_publish _ _ _) _) fun _ =>
        .pure _

/-! ## Answering queries -/

theorem failsInside_declarationAt (program : Program) (source : String) (p : Position) :
    (Navigation.declarationAt program source p).FailsInside := by
  refine .bind ?_ fun _ => .pure _
  unfold Navigation.nodeAt
  split
  · exact .pure none
  · exact .bind (.bind (failsInside_indexOf _) fun _ => .pure _) fun _ => .pure _

theorem failsInside_definition (program : Program) (source : String) (p : Position) :
    (Navigation.definition program source p).FailsInside := by
  refine .bind (failsInside_declarationAt _ _ _) fun d => ?_
  cases d with
  | none => exact .pure []
  | some d => exact .bind (failsInside_toLocation _) fun _ => .pure _

theorem failsInside_locateAll (d : Declaration) (units : List (String × CompiledUnit)) :
    (Navigation.locateAll d units).FailsInside := by
  have hlocate (source : String) (l : List Occurrence) :
      (Navigation.locate source l).FailsInside := by
    induction l with
    | nil => exact .pure []
    | cons o rest ih =>
      refine .bind (.bind (failsInside_toRange _) fun _ => .pure _) fun h => ?_
      cases h with
      | none => exact ih
      | some h => exact .bind (failsInside_uriOf _) fun _ => .bind ih fun _ => .pure _
  induction units with
  | nil => exact .pure []
  | cons u rest ih => exact .bind (hlocate _ _) fun _ => .bind ih fun _ => .pure _

theorem failsInside_references (program : Program) (source : String) (p : Position) :
    (Navigation.references program source p).FailsInside := by
  refine .bind (.bind (failsInside_declarationAt _ _ _) fun d => ?_) fun _ => .pure _
  cases d with
  | none => exact .pure []
  | some d => exact failsInside_locateAll _ _

theorem failsInside_highlights (program : Program) (source : String) (p : Position) :
    (Navigation.highlights program source p).FailsInside := by
  have hall (l : List Occurrence) : (Navigation.highlightAll l).FailsInside := by
    induction l with
    | nil => exact .pure []
    | cons o rest ih =>
      exact .bind (.bind (failsInside_toRange _) fun _ => .pure _) fun _ => .bind ih fun _ =>
        .pure _
  refine .bind (failsInside_declarationAt _ _ _) fun d => ?_
  split
  · exact hall _
  · exact .pure []

end LanguageServer
