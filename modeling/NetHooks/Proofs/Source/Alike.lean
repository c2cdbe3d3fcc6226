import NetHooks.Proofs.Relocation
import NetHooks.Proofs.Source.Frame
import NetHooks.Proofs.Source.SingleFile
import Mathlib.Data.List.Forall2

/-!
# Feeds that differ in places

Two feeds are alike when they differ in the numbers of their lines and in the sites of their
files only. They take alike steps (`Feed.step_alike`), so one yields what the other yields, in
other places (`Feed.Yields.alike`).
-/
namespace NetHooks

/-- What counts of a logical line, apart from its number. -/
def LogicalLine.shape (line : LogicalLine) : Nat × String :=
  (line.width, line.text)

/-- The lines of two lists are alike. -/
def LogicalLine.AlikeAll (xs ys : List LogicalLine) : Prop :=
  ys.map shape = xs.map shape

instance (xs ys : List LogicalLine) : Decidable (LogicalLine.AlikeAll xs ys) :=
  inferInstanceAs (Decidable (_ = _))

namespace LogicalLine.AlikeAll

variable {x : LogicalLine} {xs ys : List LogicalLine}

theorem refl (xs : List LogicalLine) : AlikeAll xs xs := rfl

theorem eq_nil (h : AlikeAll [] ys) : ys = [] :=
  List.map_eq_nil_iff.1 h

theorem eq_cons (h : AlikeAll (x :: xs) ys) :
    ∃ y ys', ys = y :: ys' ∧ y.width = x.width ∧ y.text = x.text ∧ AlikeAll xs ys' := by
  obtain ⟨y, ys', rfl, hshape, htail⟩ := List.map_eq_cons_iff.1 h
  obtain ⟨hwidth, htext⟩ := Prod.mk.inj hshape
  exact ⟨y, ys', rfl, hwidth, htext, htail⟩

end LogicalLine.AlikeAll

open LogicalLine (AlikeAll)

/-- The lines of two lists differ in their places only. -/
def Line.AlikeAll (xs ys : List Line) : Prop :=
  ys.map (relocate Location.forget) = xs.map (relocate Location.forget)

namespace Line.AlikeAll

variable {xs ys zs xs' ys' : List Line}

theorem append (h : AlikeAll xs ys) (h' : AlikeAll xs' ys') : AlikeAll (xs ++ xs') (ys ++ ys') := by
  rw [AlikeAll, List.map_append, List.map_append, h, h']

theorem trans (h : AlikeAll xs ys) (h' : AlikeAll ys zs) : AlikeAll xs zs :=
  Eq.trans h' h

end Line.AlikeAll

namespace Feed

inductive SegmentAlike : Segment → Segment → Prop
  | pending (path : String) (offset : Nat) (levels : Indentation.Levels)
      (site site' : Option Location) :
      SegmentAlike ⟨path, offset, levels, none, site⟩ ⟨path, offset, levels, none, site'⟩
  | opened (path : String) (offset : Nat) (levels : Indentation.Levels) (identity : String)
      {rest rest' : List LogicalLine} (site site' : Option Location) (h : AlikeAll rest rest') :
      SegmentAlike ⟨path, offset, levels, some ⟨identity, rest⟩, site⟩
        ⟨path, offset, levels, some ⟨identity, rest'⟩, site'⟩

/-- The feeds differ in the numbers of lines and in the sites of files only. -/
inductive Alike : Feed → Feed → Prop
  | intro (definitions : Definitions) (guards : List Guard) (active : List String)
      {segments segments' : List Segment} (h : List.Forall₂ SegmentAlike segments segments') :
      Alike ⟨definitions, guards, segments, active⟩ ⟨definitions, guards, segments', active⟩

/-- The steps show the same, in other places, and leave related feeds. -/
inductive Step.Rel (R : Feed → Feed → Prop) : Step → Step → Prop
  | working {f g : Feed} (h : R f g) : Rel R (.working f) (.working g)
  | delivered {f g : Feed} {x y : Line} (line : Line.AlikeAll [x] [y]) (h : R f g) :
      Rel R (.delivered x f) (.delivered y g)
  | failed (e e' : SourceError) (f g : Feed) : Rel R (.failed e f) (.failed e' g)
  | finished (f g : Feed) : Rel R (.finished f) (.finished g)

namespace Step.Rel

variable {R R' : Feed → Feed → Prop} {a b : Step} {f : Feed} {x : Line} {e : SourceError}

theorem eq_working (h : Rel R (.working f) b) : ∃ g, b = .working g ∧ R f g := by
  cases h with
  | working h => exact ⟨_, rfl, h⟩

theorem eq_delivered (h : Rel R (.delivered x f) b) :
    ∃ y g, b = .delivered y g ∧ Line.AlikeAll [x] [y] ∧ R f g := by
  cases h with
  | delivered line h => exact ⟨_, _, rfl, line, h⟩

theorem eq_failed (h : Rel R (.failed e f) b) : ∃ e' g, b = .failed e' g := by
  cases h
  exact ⟨_, _, rfl⟩

theorem eq_finished (h : Rel R (.finished f) b) : ∃ g, b = .finished g := by
  cases h
  exact ⟨_, rfl⟩

theorem above {tail tail' : List Segment} (h : Rel R a b)
    (habove : ∀ f g, R f g → R' (f.above tail) (g.above tail')) :
    Rel R' (a.above tail) (b.above tail') := by
  cases h with
  | working h => exact .working (habove _ _ h)
  | delivered line h => exact .delivered line (habove _ _ h)
  | failed e e' f g => exact .failed e e' _ _
  | finished f g => exact .finished _ _

end Step.Rel

variable {library : Library} {f g : Feed} {s : Stream}

theorem segmentAlike_refl (s : Segment) : SegmentAlike s s := by
  obtain ⟨path, offset, levels, _ | ⟨identity, rest⟩, site⟩ := s
  · exact .pending path offset levels site site
  · exact .opened path offset levels identity site site (.refl rest)

theorem Alike.refl (f : Feed) : f.Alike f :=
  .intro _ _ _ (List.forall₂_same.2 fun s _ => segmentAlike_refl s)

theorem Opened.feed_alike {o : Opened} {levels : Indentation.Levels} {m : Memory}
    {xs ys : List LogicalLine} (h : AlikeAll xs ys) :
    (o.feed levels m xs).Alike (o.feed levels m ys) :=
  .intro _ _ _ (.cons (.opened _ _ _ _ _ _ h) (List.forall₂_same.2 fun s _ => segmentAlike_refl s))

/-! ### Steps -/

theorem includeFiles_alike (h : f.Alike g) (target : String) (level : Nat) (path : String)
    (n n' : Nat) : Step.Rel Alike (includeFiles library f target level ⟨path, n⟩)
      (includeFiles library g target level ⟨path, n'⟩) := by
  cases h with
  | intro definitions guards active h =>
      simp only [includeFiles]
      split
      · exact .working (.intro _ _ _ (.cons (.pending ..) h))
      split
      · split
        · exact .failed ..
        · refine .working (.intro _ _ _ (List.rel_append ?_ h))
          exact List.forall₂_map_left_iff.2 (List.forall₂_map_right_iff.2
            (List.forall₂_same.2 fun path _ => .pending ..))
      · exact .failed ..

theorem takeLine_alike (h : f.Alike g) (level : Nat) (text path : String) (n n' : Nat) :
    Step.Rel Alike (takeLine library f level text ⟨path, n⟩)
      (takeLine library g level text ⟨path, n'⟩) := by
  have hread := Directive.read_relocate (fun _ => ⟨path, n'⟩)
    (String.ofList (Text.firstToken text.toList)) text ⟨path, n⟩
  simp only [takeLine, hread]
  cases Directive.read (String.ofList (Text.firstToken text.toList)) text ⟨path, n⟩ with
  | error e => exact .failed ..
  | ok d? =>
      cases d? with
      | some d =>
          cases d with
          | «include» target => exact includeFiles_alike h target level path n n'
          | define | undefine | guard =>
              cases h with
              | intro definitions guards active h => exact .working (.intro _ _ _ h)
      | none =>
          cases h with
          | intro definitions guards active h =>
              simp only [relocated_ok, id]
              cases definitions.substitute text with
              | error key => exact .failed ..
              | ok content => exact .delivered rfl (.intro _ _ _ h)

/-- Alike feeds take alike steps. -/
theorem step_alike (h : f.Alike g) : Step.Rel Alike (step library f) (step library g) := by
  cases h with
  | intro definitions guards active h =>
      cases h with
      | nil => exact .finished ..
      | cons h hbelow =>
          cases h with
          | pending path offset levels site site' =>
              simp only [step, openSegment]
              split
              · exact .failed ..
              · split
                · exact .failed ..
                · exact .working (.intro _ _ _ (.cons (.opened _ _ _ _ _ _ (.refl _)) hbelow))
          | @opened path offset levels identity rest rest' site site' h =>
              cases rest with
              | nil =>
                  cases h.eq_nil
                  exact .working (.intro _ _ _ hbelow)
              | cons x rest =>
                  obtain ⟨y, rest', rfl, hwidth, htext, h⟩ := h.eq_cons
                  simp only [step, hwidth, htext]
                  split
                  · exact .failed ..
                  next levels _ =>
                    have hread := Alike.intro definitions (standing guards (offset + levels.level))
                      active (.cons (.opened path offset levels identity site site' h) hbelow)
                    split
                    · exact .working hread
                    · exact takeLine_alike hread _ x.text path x.number y.number

/-- Alike feeds yield alike lines, and both fail or neither does. -/
theorem Yields.alike (hs : Yields library f s) (h : f.Alike g) :
    ∃ t, Yields library g t ∧ Line.AlikeAll s.lines t.lines ∧ t.failure.isSome = s.failure.isSome := by
  induction hs generalizing g with
  | finished last =>
      obtain ⟨g', hg⟩ := (last ▸ step_alike h).eq_finished
      exact ⟨_, .finished hg, rfl, rfl⟩
  | failed last =>
      obtain ⟨e', g', hg⟩ := (last ▸ step_alike h).eq_failed
      exact ⟨_, .failed hg, rfl, rfl⟩
  | working first _ ih =>
      obtain ⟨g', hg, h'⟩ := (first ▸ step_alike h).eq_working
      obtain ⟨t, ht, hlines, hfailure⟩ := ih h'
      exact ⟨t, .working hg ht, hlines, hfailure⟩
  | delivered first _ ih =>
      obtain ⟨y, g', hg, hline, h'⟩ := (first ▸ step_alike h).eq_delivered
      obtain ⟨t, ht, hlines, hfailure⟩ := ih h'
      exact ⟨t.after [y], .delivered hg ht, hline.append hlines, hfailure⟩

end Feed

end NetHooks
