import NetHooks.Proofs.Source.Memory
import Mathlib.Algebra.Order.BigOperators.Group.List
import Mathlib.Algebra.Order.Ring.Nat

/-!
# Feeds that are reached

A run begins with a file or a text, and each step leads on, also a step that fails: after an
error the feed can be asked for more (`Feed.Reaches`). What every step keeps holds of all feeds
that are reached. So all of them are consistent, and their guards stand one inside another.
-/
namespace NetHooks

/-- What a run begins with: a file, or a text that counts as the text of a file. -/
inductive Origin where
  | file (path : String)
  | text (path content : String)

def Origin.feed (library : Library) : Origin → Feed
  | file path => .ofFile path
  | text path content => .ofText library path content

/-- Texts under their paths, and no directories. -/
def Library.ofTexts (texts : Catalog String) : Library where
  identify := id
  read path := match texts.get? path with
    | some text => .ok text
    | none => .error .notFound
  isFile path := texts.contains path
  isDirectory _ := false
  members _ := .error .notDirectory
  files := texts.names
  extent := (texts.values.map String.length).sum
  identify_mem := by
    intro path text h
    split at h
    next text' hget => exact List.mem_map.2 ⟨(path, text'), Catalog.mem_of_findEntry hget, rfl⟩
    next => cases h
  length_read_le := by
    intro path text h
    split at h
    next text' hget =>
      cases h
      have hmem : text ∈ texts.values :=
        List.mem_map.2 ⟨(path, text), Catalog.mem_of_findEntry hget, rfl⟩
      exact List.le_sum_of_mem (List.mem_map_of_mem hmem)
    next => cases h
  length_members_le := nofun

namespace Feed

variable {library : Library} {f g : Feed}

/-- Steps one after another lead from the one feed to the other. -/
inductive Reaches (library : Library) (f : Feed) : Feed → Prop
  | refl : Reaches library f f
  | step {g : Feed} (h : Reaches library f g) : Reaches library f (step library g).feed

theorem Reaches.keeps {P : Feed → Prop} (hstep : ∀ g, P g → P (Feed.step library g).feed)
    (h : Reaches library f g) (hf : P f) : P g := by
  induction h with
  | refl => exact hf
  | step _ ih => exact hstep _ ih

theorem consistent_origin (library : Library) (origin : Origin) :
    (origin.feed library).Consistent library := by
  cases origin with
  | file path => exact consistent_ofFile library path
  | text path content => exact consistent_ofText library path content

theorem Reaches.consistent {origin : Origin} (h : Reaches library (origin.feed library) f) :
    f.Consistent library :=
  h.keeps (fun _ hg => hg.step) (consistent_origin library origin)

/-- A step that reads no line leaves the guards, and a line that is read stands under all guards
that it leaves but its own. -/
theorem nested_step (h : Nested f.guards) : Nested (step library f).feed.guards := by
  rcases step_cases library f with ⟨-, hstep⟩ | ⟨s, below, -, -, hstep⟩ |
    ⟨s, below, identity, -, -, hstep⟩ | ⟨s, below, identity, line, rest, -, -, -, hstep⟩ |
    ⟨line, level, l, g, hreads⟩
  · exact hstep ▸ h
  · rw [hstep, openSegment]
    split
    · exact h
    · split <;> exact h
  · exact hstep ▸ h
  · exact hstep ▸ h
  · have hstanding : Nested (standing f.guards level) := h.standing level
    rcases (hreads.taken library).guards with heq | ⟨enabled, heq⟩
    · rw [heq, hreads.guards_eq]
      exact hstanding
    · rw [heq, hreads.guards_eq]
      exact List.pairwise_cons.2 ⟨fun g hg => h.lt_of_mem_standing hg, hstanding⟩

theorem Reaches.nested {origin : Origin} (h : Reaches library (origin.feed library) f) :
    Nested f.guards := by
  refine h.keeps (P := fun f => Nested f.guards) (fun _ => nested_step) ?_
  cases origin <;> exact nested_nil

end Feed

end NetHooks
