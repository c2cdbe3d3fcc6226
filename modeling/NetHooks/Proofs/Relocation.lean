import NetHooks.Proofs.Forest
import NetHooks.Source.Directive

/-!
# Places moved elsewhere

A line is read alike wherever it stands: with its place moved, a computation gives the same
result, and the same error at the place moved (`relocated`). Lines that differ in their places
only build forests that differ in their places only (`Forest.ofLines_relocate`).
-/
namespace NetHooks

/-- The one place that stands for all. -/
def Location.forget (_ : Location) : Location := ⟨"", 0⟩

/-- The error with its places moved. -/
def SourceError.relocate (r : Location → Location) : SourceError → SourceError
  | unreadable path cause => unreadable path cause
  | recursiveInclude path site => recursiveInclude path (r site)
  | includeNotFound path l => includeNotFound path (r l)
  | badIndentation l => badIndentation (r l)
  | unexpectedNesting l => unexpectedNesting (r l)
  | badWords cause l => badWords cause (r l)
  | invalidIdentifier identifier l => invalidIdentifier identifier (r l)
  | unknownSubstitution key l => unknownSubstitution key (r l)
  | missingOperand keyword expected l => missingOperand keyword expected (r l)
  | tooManyOperands keyword l => tooManyOperands keyword (r l)
  | unknownKeyword keyword scope l => unknownKeyword keyword scope (r l)
  | duplicate kind name first l => duplicate kind name (r first) (r l)
  | keyCollision option key l => keyCollision option key (r l)
  | unexpectedBlock keyword l => unexpectedBlock keyword (r l)

/-- The result with its places moved by `g`, or the error with its places moved. -/
def relocated {α β : Type} (r : Location → Location) (g : α → β) :
    Except SourceError α → Except SourceError β
  | .ok a => .ok (g a)
  | .error e => .error (e.relocate r)

section Computations

variable {α α' β β' : Type} {r : Location → Location} {g : α → α'} {k : β → β'}

@[simp] theorem relocated_ok (a : α) : relocated r g (.ok a) = .ok (g a) := rfl

@[simp] theorem relocated_error (e : SourceError) :
    relocated r g (.error e) = .error (e.relocate r) := rfl

/-- A chain of computations is moved step by step. -/
theorem bind_relocated {x : Except SourceError α} {x' : Except SourceError α'}
    {f : α → Except SourceError β} {f' : α' → Except SourceError β'}
    (hx : x' = relocated r g x) (hf : ∀ a, f' (g a) = relocated r k (f a)) :
    x' >>= f' = relocated r k (x >>= f) := by
  subst hx
  cases x with
  | error e => rfl
  | ok a => exact hf a

theorem mapM_relocated {f : α → Except SourceError β} {f' : α' → Except SourceError β'}
    (l : List α) (hf : ∀ a, f' (g a) = relocated r k (f a)) :
    (l.map g).mapM f' = relocated r (List.map k) (l.mapM f) := by
  induction l with
  | nil => rfl
  | cons a l ih =>
      rw [List.map_cons, List.mapM_cons, List.mapM_cons]
      exact bind_relocated (hf a) fun b => bind_relocated ih fun bs => rfl

theorem foldlM_relocated {f : β → α → Except SourceError β} {f' : β' → α' → Except SourceError β'}
    (l : List α) (hf : ∀ b a, f' (k b) (g a) = relocated r k (f b a)) (b : β) :
    (l.map g).foldlM f' (k b) = relocated r k (l.foldlM f b) := by
  induction l generalizing b with
  | nil => rfl
  | cons a l ih =>
      rw [List.map_cons, List.foldlM_cons, List.foldlM_cons]
      exact bind_relocated (hf b a) ih

end Computations

/-! ### Directives -/

variable (r : Location → Location)

theorem wordsAt_relocate (text : String) (l : Location) :
    wordsAt text (r l) = relocated r id (wordsAt text l) := by
  rw [wordsAt, wordsAt]
  cases words text <;> rfl

theorem singleOperand_relocate (words : List String) (keyword : String) (expected : Operand)
    (l : Location) : singleOperand words keyword expected (r l) =
      relocated r id (singleOperand words keyword expected l) := by
  match words with
  | [] | [_] | [_, _] | _ :: _ :: _ :: _ => rfl

theorem checkedIdentifier_relocate (s : String) (l : Location) :
    checkedIdentifier s (r l) = relocated r id (checkedIdentifier s l) := by
  rw [checkedIdentifier, checkedIdentifier]
  split <;> rfl

theorem Directive.read_relocate (keyword text : String) (l : Location) :
    Directive.read keyword text (r l) = relocated r id (Directive.read keyword text l) := by
  have hwords := wordsAt_relocate r text l
  simp only [Directive.read]
  split
  · exact bind_relocated hwords fun ws =>
      bind_relocated (singleOperand_relocate r ws _ _ l) fun _ => rfl
  split
  · refine bind_relocated hwords fun ws => ?_
    match ws with
    | [] | [_] | _ :: _ :: _ :: _ :: _ => rfl
    | [_, identifier] | [_, identifier, _] =>
        exact bind_relocated (checkedIdentifier_relocate r identifier l) fun _ => rfl
  split
  · exact bind_relocated hwords fun ws => bind_relocated (singleOperand_relocate r ws _ _ l)
      fun operand => bind_relocated (checkedIdentifier_relocate r operand l) fun _ => rfl
  split
  · exact bind_relocated hwords fun ws => bind_relocated (singleOperand_relocate r ws _ _ l)
      fun operand => bind_relocated (checkedIdentifier_relocate r operand l) fun _ => rfl
  · rfl

/-! ### Lines and forests -/

def Line.relocate (l : Line) : Line :=
  { l with location := r l.location }

namespace Tree

mutual

/-- The tree with its lines moved. -/
def relocate : Tree → Tree
  | node l cs => node (l.relocate r) (relocateAll cs)

def relocateAll : List Tree → List Tree
  | [] => []
  | t :: ts => relocate t :: relocateAll ts

end

theorem relocateAll_eq_map (f : Forest) : relocateAll r f = f.map (relocate r) := by
  induction f with
  | nil => rfl
  | cons t ts ih => rw [relocateAll, ih, List.map_cons]

@[simp] theorem children_relocate (t : Tree) :
    (t.relocate r).children = t.children.map (relocate r) := by
  cases t with
  | node l cs => exact relocateAll_eq_map r cs

@[simp] theorem level_relocate (t : Tree) : (t.relocate r).level = t.level := by
  cases t
  rfl

@[simp] theorem content_relocate (t : Tree) : (t.relocate r).content = t.content := by
  cases t
  rfl

@[simp] theorem location_relocate (t : Tree) : (t.relocate r).location = r t.location := by
  cases t
  rfl

end Tree

namespace Forest

/-- The forest with its lines moved. -/
def relocate (f : Forest) : Forest :=
  f.map (Tree.relocate r)

variable {r}

theorem graft_relocate (l : Line) (f : Forest) :
    graft (l.relocate r) (f.relocate r) = (graft l f).relocate r := by
  simp only [graft, relocate, Line.relocate, List.takeWhile_map, List.dropWhile_map,
    Function.comp_def, Tree.level_relocate, List.map_cons, Tree.relocate, Tree.relocateAll_eq_map]

theorem ofLines_relocate (ls : List Line) :
    ofLines (ls.map (Line.relocate r)) = (ofLines ls).relocate r := by
  induction ls with
  | nil => rfl
  | cons l ls ih => rw [List.map_cons, ofLines_cons, ofLines_cons, ih, graft_relocate]

theorem firstMisplaced?_relocate (n : Nat) (ls : List Line) :
    firstMisplaced? n (ls.map (Line.relocate r)) = (firstMisplaced? n ls).map (Line.relocate r) := by
  induction ls generalizing n with
  | nil => rfl
  | cons l ls ih =>
      simp only [List.map_cons, firstMisplaced?, Line.relocate]
      split
      · rfl
      · exact ih (l.level + 1)

/-- Streams of lines that differ in their places only give such forests. -/
theorem exists_ofStream_of_relocate {s t : Feed.Stream} {f : Forest}
    (hlines : t.lines.map (Line.relocate r) = s.lines.map (Line.relocate r))
    (hfailure : t.failure = none) (h : ofStream s = .ok f) :
    ∃ g, ofStream t = .ok g ∧ g.relocate r = f.relocate r := by
  obtain ⟨hplaced, -, rfl⟩ := ofStream_eq_ok.1 h
  have hmoved := congrArg (firstMisplaced? 0) hlines
  simp only [firstMisplaced?_relocate, hplaced, Option.map_none, Option.map_eq_none_iff] at hmoved
  refine ⟨ofLines t.lines, ofStream_eq_ok.2 ⟨hmoved, hfailure, rfl⟩, ?_⟩
  rw [← ofLines_relocate, hlines, ofLines_relocate]

end Forest

end NetHooks
