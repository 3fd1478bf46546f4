import LanguageServer.Proofs.Compiler.Renaming
import LanguageServer.Proofs.Table
import Mathlib.Logic.Function.Basic

/-!
# Programs with other offsets

A source can hold the same tokens at other offsets.  Then what is made of it stands in other
places, and nothing else about it changes.

## Main definitions

* `Shift` — other offsets for what stands in sources.
* `SourceLocation.shift`, `Node.shift`, `Program.shift` — the same with other offsets.

## Main statements

* `SourceLocation.shift_injective` — different places stay different.
* `Node.shift_eq_self` — a tree in sources that keep their offsets stays where it is.
* `Program.declarationOf?_shift` — a node leads to the same declaration.
-/

namespace LanguageServer

/-- Other offsets for what stands in sources, by the name of the source. -/
structure Shift where
  map : String → Nat → Nat
  map_zero : ∀ source, map source 0 = 0
  map_injective : ∀ source, Function.Injective (map source)

/-- The other offset; there is nothing in front of a source. -/
def Shift.offset (φ : Shift) (source : String) : Int → Int
  | .ofNat n => φ.map source n
  | .negSucc n => .negSucc n

variable {φ : Shift}

theorem Shift.offset_injective (φ : Shift) (source : String) :
    Function.Injective (φ.offset source) := by
  intro m n heq
  cases m with
  | ofNat m =>
    cases n with
    | ofNat n => exact congrArg Int.ofNat (φ.map_injective source (Int.ofNat.inj heq))
    | negSucc n => cases heq
  | negSucc m =>
    cases n with
    | ofNat n => cases heq
    | negSucc n => exact heq

theorem Shift.offset_of_id {source : String} (h : φ.map source = id) (n : Int) :
    φ.offset source n = n := by
  cases n with
  | ofNat n => exact congrArg (fun f : Nat → Nat => Int.ofNat (f n)) h
  | negSucc n => rfl

/-! ## Places -/

namespace SourceLocation

/-- The place at other offsets. -/
def shift (φ : Shift) (l : SourceLocation) : SourceLocation :=
  { l with start := φ.offset l.source l.start, stop := φ.offset l.source l.stop }

@[simp] theorem source_shift (l : SourceLocation) : (l.shift φ).source = l.source := rfl

theorem shift_injective (φ : Shift) : Function.Injective (shift φ) := by
  rintro ⟨source, start, stop⟩ ⟨source', start', stop'⟩ heq
  simp only [shift, mk.injEq] at heq
  obtain ⟨rfl, hstart, hstop⟩ := heq
  rw [φ.offset_injective source hstart, φ.offset_injective source hstop]

theorem shift_eq_self {l : SourceLocation} (h : φ.map l.source = id) : l.shift φ = l := by
  simp only [shift, Shift.offset_of_id h]

end SourceLocation

/-- The declaration with its name at other offsets. -/
def Declaration.shift (φ : Shift) (d : Declaration) : Declaration :=
  { d with location := d.location.shift φ }

/-- The place that belongs to a finding, at other offsets. -/
def RelatedPlace.shift (φ : Shift) (r : RelatedPlace) : RelatedPlace :=
  { r with location := r.location.shift φ }

/-- The finding about the same places at other offsets. -/
def Finding.shift (φ : Shift) (f : Finding) : Finding :=
  { f with location := f.location.map (·.shift φ), related := f.related.map (·.shift φ) }

/-! ## Trees -/

/-- The label at other offsets. -/
def NodeLabel.shift (φ : Shift) (l : NodeLabel) : NodeLabel :=
  { l with location := l.location.shift φ }

namespace Node

mutual

/-- The tree at other offsets. -/
def shift (φ : Shift) : Node → Node
  | ⟨label, children⟩ => ⟨label.shift φ, shiftAll φ children⟩

/-- The trees at other offsets. -/
def shiftAll (φ : Shift) : List Node → List Node
  | [] => []
  | n :: rest => n.shift φ :: shiftAll φ rest

end

theorem shift_eq (n : Node) : n.shift φ = ⟨n.label.shift φ, shiftAll φ n.children⟩ := by
  cases n
  rfl

@[simp] theorem label_shift (n : Node) : (n.shift φ).label = n.label.shift φ := by
  rw [shift_eq]

@[simp] theorem location_shift (n : Node) : (n.shift φ).location = n.location.shift φ := by
  rw [shift_eq]
  rfl

theorem shiftAll_eq_map (l : List Node) : shiftAll φ l = l.map (·.shift φ) := by
  induction l with
  | nil => rfl
  | cons n rest ih => rw [shiftAll, ih, List.map_cons]

theorem children_shift (n : Node) : (n.shift φ).children = shiftAll φ n.children := by
  rw [shift_eq]

mutual

theorem preorder_shift : (n : Node) → (n.shift φ).preorder = n.preorder.map (·.shift φ)
  | ⟨label, children⟩ => by
    rw [preorder_eq, preorder_eq, children_shift, preorderAll_shiftAll children, List.map_cons]

theorem preorderAll_shiftAll : (l : List Node) →
    preorderAll (shiftAll φ l) = (preorderAll l).map (·.shift φ)
  | [] => rfl
  | n :: rest => by
    rw [shiftAll, preorderAll, preorderAll, preorder_shift n, preorderAll_shiftAll rest,
      List.map_append]

end

/-- The nodes are listed in the same order. -/
theorem walk_shift (n : Node) : (n.shift φ).walk = n.walk.map (·.shift φ) := by
  rw [walk_eq_preorder, walk_eq_preorder, preorder_shift]

mutual

/-- A tree in sources that keep their offsets stays where it is. -/
theorem shift_eq_self : (n : Node) → (∀ m ∈ n.preorder, φ.map m.location.source = id) → n.shift φ = n
  | ⟨label, children⟩, h => by
    rw [preorder_eq] at h
    have hstays : label.location.shift φ = label.location :=
      SourceLocation.shift_eq_self (h ⟨label, children⟩ List.mem_cons_self)
    rw [shift, shiftAll_eq_self children fun m hm => h m (List.mem_cons_of_mem _ hm)]
    simp only [NodeLabel.shift, hstays]

theorem shiftAll_eq_self : (l : List Node) →
    (∀ m ∈ preorderAll l, φ.map m.location.source = id) → shiftAll φ l = l
  | [], _ => rfl
  | n :: rest, h => by
    rw [preorderAll] at h
    rw [shiftAll, shift_eq_self n fun m hm => h m (List.mem_append_left _ hm),
      shiftAll_eq_self rest fun m hm => h m (List.mem_append_right _ hm)]

end

end Node

/-! ## Programs -/

/-- The unit at other offsets. -/
def CompiledUnit.shift (φ : Shift) (u : CompiledUnit) : CompiledUnit :=
  { u with root := u.root.shift φ }

/-- The program at other offsets. -/
def Program.shift (φ : Shift) (p : Program) : Program where
  units := p.units.mapValues fun _ u => u.shift φ
  declarations := p.declarations.mapValues fun _ d => d.shift φ
  findings := p.findings.map (·.shift φ)

theorem Program.find?_units_shift (p : Program) (n : String) :
    (p.shift φ).units.find? n = (p.units.find? n).map (·.shift φ) := Table.find?_mapValues _ _ n

/-- A node leads to the same declaration, wherever either of them stands. -/
theorem Program.declarationOf?_shift {p : Program} {m m' : Node}
    (hreferences : m'.label.references = m.label.references)
    (hdeclares : m'.label.declares = m.label.declares) :
    (p.shift φ).declarationOf? m' = (p.declarationOf? m).map (·.shift φ) := by
  unfold declarationOf?
  rw [hreferences, hdeclares]
  have hfind (handle : Int) : (p.shift φ).declarations.find? handle =
      (p.declarations.find? handle).map (·.shift φ) := Table.find?_mapValues _ _ handle
  split
  · exact hfind _
  · exact hfind _
  · rfl

/-- A unit that lies in a source with the same offsets stays as it is. -/
theorem Program.IsFormed.shift_eq_self {p : Program} (h : p.IsFormed) {n : String} (hn : φ.map n = id)
    {u : CompiledUnit} (hu : p.units.find? n = some u) : u.shift φ = u := by
  unfold CompiledUnit.shift
  rw [Node.shift_eq_self u.root fun m hm => by rw [h.located n u hu m hm, hn]]

end LanguageServer
