/-!
# Catalogs

A catalog files one value under each of its names and lists them in name order,
which is the order of code points. Two catalogs that answer every look-up alike
are equal (`Catalog.ext_get?`), so a catalog is a finite map with a fixed written
order.
-/
namespace NetHooks

universe u

structure Catalog (α : Type u) where
  entries : List (String × α)
  ordered : entries.Pairwise (fun a b => a.1 < b.1)
  deriving DecidableEq

namespace Catalog

variable {α : Type u}

def empty : Catalog α := ⟨[], List.Pairwise.nil⟩

instance : Inhabited (Catalog α) := ⟨empty⟩

/-- The value of the first entry with the name. -/
def findEntry (name : String) : List (String × α) → Option α
  | [] => none
  | e :: rest => if name = e.1 then some e.2 else findEntry name rest

def get? (c : Catalog α) (name : String) : Option α :=
  findEntry name c.entries

def contains (c : Catalog α) (name : String) : Bool :=
  (c.get? name).isSome

def names (c : Catalog α) : List String :=
  c.entries.map (·.1)

def values (c : Catalog α) : List α :=
  c.entries.map (·.2)

/-- File a value in an ordered list, in place of the one with its name. -/
def insertEntry (name : String) (value : α) : List (String × α) → List (String × α)
  | [] => [(name, value)]
  | e :: rest =>
      if name < e.1 then (name, value) :: e :: rest
      else if name = e.1 then (name, value) :: rest
      else e :: insertEntry name value rest

theorem mem_insertEntry {name : String} {value : α} {l : List (String × α)}
    {x : String × α} (h : x ∈ insertEntry name value l) : x = (name, value) ∨ x ∈ l := by
  induction l with
  | nil => simpa [insertEntry] using h
  | cons e rest ih =>
      simp only [insertEntry] at h
      split at h
      · simpa using h
      · split at h
        · rcases List.mem_cons.1 h with h | h
          · exact .inl h
          · exact .inr (List.mem_cons_of_mem _ h)
        · rcases List.mem_cons.1 h with h | h
          · exact .inr (h ▸ List.mem_cons_self)
          · exact (ih h).imp id (List.mem_cons_of_mem _)

theorem lt_of_not_lt_of_ne {a b : String} (h : ¬a < b) (hne : a ≠ b) : b < a :=
  Classical.byContradiction fun h' =>
    hne (String.le_antisymm (String.not_lt.1 h') (String.not_lt.1 h))

theorem pairwise_insertEntry {name : String} {value : α} {l : List (String × α)}
    (h : l.Pairwise (fun a b => a.1 < b.1)) :
    (insertEntry name value l).Pairwise (fun a b => a.1 < b.1) := by
  induction l with
  | nil => simp [insertEntry]
  | cons e rest ih =>
      have hrest := List.pairwise_cons.1 h
      simp only [insertEntry]
      split
      · next hlt =>
          refine List.pairwise_cons.2 ⟨fun x hx => ?_, h⟩
          rcases List.mem_cons.1 hx with hx | hx
          · exact hx ▸ hlt
          · exact String.lt_trans hlt (hrest.1 x hx)
      · next hnlt =>
          split
          · next heq => exact List.pairwise_cons.2 ⟨fun x hx => heq ▸ hrest.1 x hx, hrest.2⟩
          · next hne =>
              refine List.pairwise_cons.2 ⟨fun x hx => ?_, ih hrest.2⟩
              rcases mem_insertEntry hx with hx | hx
              · exact hx ▸ lt_of_not_lt_of_ne hnlt hne
              · exact hrest.1 x hx

def insert (c : Catalog α) (name : String) (value : α) : Catalog α :=
  ⟨insertEntry name value c.entries, pairwise_insertEntry c.ordered⟩

def erase (c : Catalog α) (name : String) : Catalog α :=
  ⟨c.entries.filter (fun e => e.1 ≠ name), c.ordered.filter _⟩

/-- Every entry of `other` filed over those of `c`. -/
def merge (c other : Catalog α) : Catalog α :=
  other.entries.foldl (fun acc e => acc.insert e.1 e.2) c

/-- A later entry takes the place of an earlier one with its name. -/
def ofList (l : List (String × α)) : Catalog α :=
  l.foldl (fun acc e => acc.insert e.1 e.2) empty

@[simp] theorem get?_empty (name : String) : (empty : Catalog α).get? name = none := rfl

theorem findEntry_insertEntry (name key : String) (value : α) (l : List (String × α)) :
    findEntry key (insertEntry name value l) =
      if key = name then some value else findEntry key l := by
  induction l with
  | nil => rfl
  | cons e rest ih =>
      simp only [insertEntry]
      split
      · rfl
      · split
        · next heq => by_cases h : key = name <;> simp [findEntry, h, ← heq]
        · next hne =>
            by_cases h : key = e.1
            · have : e.1 ≠ name := fun he => hne he.symm
              simp [findEntry, h, this]
            · simp [findEntry, h, ih]

@[simp] theorem get?_insert (c : Catalog α) (name key : String) (value : α) :
    (c.insert name value).get? key = if key = name then some value else c.get? key :=
  findEntry_insertEntry name key value c.entries

theorem findEntry_filter_ne (name key : String) (l : List (String × α)) :
    findEntry key (l.filter (fun e => e.1 ≠ name)) =
      if key = name then none else findEntry key l := by
  induction l with
  | nil => simp [findEntry]
  | cons e rest ih =>
      by_cases he : e.1 = name
      · rw [List.filter_cons_of_neg (by simp [he]), ih]
        by_cases h : key = name <;> simp [findEntry, h, he]
      · rw [List.filter_cons_of_pos (by simp [he])]
        by_cases hk : key = e.1
        · simp [findEntry, hk, he]
        · rw [findEntry, if_neg hk, ih, findEntry, if_neg hk]

@[simp] theorem get?_erase (c : Catalog α) (name key : String) :
    (c.erase name).get? key = if key = name then none else c.get? key :=
  findEntry_filter_ne name key c.entries

theorem findEntry_of_mem {l : List (String × α)}
    (h : l.Pairwise (fun a b => a.1 < b.1)) {e : String × α} (he : e ∈ l) :
    findEntry e.1 l = some e.2 := by
  induction l with
  | nil => cases he
  | cons x rest ih =>
      have hx := List.pairwise_cons.1 h
      rcases List.mem_cons.1 he with he | he
      · simp [findEntry, he]
      · have : e.1 ≠ x.1 := fun heq => String.lt_irrefl x.1 (heq ▸ hx.1 e he)
        simp [findEntry, this, ih hx.2 he]

theorem mem_of_findEntry {l : List (String × α)} {name : String} {value : α}
    (h : findEntry name l = some value) : (name, value) ∈ l := by
  induction l with
  | nil => simp [findEntry] at h
  | cons x rest ih =>
      simp only [findEntry] at h
      split at h
      · next hx => cases h; exact hx ▸ List.mem_cons_self
      · exact List.mem_cons_of_mem _ (ih h)

theorem mem_entries_iff {c : Catalog α} {name : String} {value : α} :
    (name, value) ∈ c.entries ↔ c.get? name = some value :=
  ⟨fun h => findEntry_of_mem c.ordered h, mem_of_findEntry⟩

theorem eq_of_pairwise_of_mem_iff {l m : List (String × α)}
    (hl : l.Pairwise (fun a b => a.1 < b.1)) (hm : m.Pairwise (fun a b => a.1 < b.1))
    (h : ∀ e, e ∈ l ↔ e ∈ m) : l = m := by
  induction l generalizing m with
  | nil =>
      cases m with
      | nil => rfl
      | cons b m => exact absurd ((h b).2 List.mem_cons_self) (List.not_mem_nil)
  | cons a l ih =>
      cases m with
      | nil => exact absurd ((h a).1 List.mem_cons_self) (List.not_mem_nil)
      | cons b m =>
          have ha := List.pairwise_cons.1 hl
          have hb := List.pairwise_cons.1 hm
          have hab : a = b := by
            rcases List.mem_cons.1 ((h a).1 List.mem_cons_self) with hab | hab
            · exact hab
            · rcases List.mem_cons.1 ((h b).2 List.mem_cons_self) with hba | hba
              · exact hba.symm
              · exact absurd (ha.1 b hba) (String.lt_asymm (hb.1 a hab))
          subst hab
          rw [ih ha.2 hb.2 fun e => ?_]
          constructor
          · intro he
            rcases List.mem_cons.1 ((h e).1 (List.mem_cons_of_mem _ he)) with heq | he'
            · exact absurd (ha.1 e he) (heq ▸ String.lt_irrefl _)
            · exact he'
          · intro he
            rcases List.mem_cons.1 ((h e).2 (List.mem_cons_of_mem _ he)) with heq | he'
            · exact absurd (hb.1 e he) (heq ▸ String.lt_irrefl _)
            · exact he'

/-- Catalogs with the same look-ups are equal. -/
theorem ext_get? {c d : Catalog α} (h : ∀ name, c.get? name = d.get? name) : c = d := by
  have : c.entries = d.entries :=
    eq_of_pairwise_of_mem_iff c.ordered d.ordered fun e => by
      rw [show e = (e.1, e.2) from rfl, mem_entries_iff, mem_entries_iff, h]
  cases c; cases d; simp_all

theorem findEntry_eq_none_of_forall_lt {l : List (String × α)} {name : String}
    (h : ∀ e ∈ l, name < e.1) : findEntry name l = none := by
  induction l with
  | nil => rfl
  | cons e rest ih =>
      have hne : name ≠ e.1 := fun heq =>
        String.lt_irrefl e.1 (heq ▸ h e List.mem_cons_self)
      rw [findEntry, if_neg hne, ih fun x hx => h x (List.mem_cons_of_mem _ hx)]

theorem get?_foldl_insert {l : List (String × α)} (h : l.Pairwise (fun a b => a.1 < b.1))
    (c : Catalog α) (name : String) :
    (l.foldl (fun acc e => acc.insert e.1 e.2) c).get? name =
      (findEntry name l).or (c.get? name) := by
  induction l generalizing c with
  | nil => simp [findEntry]
  | cons e rest ih =>
      have he := List.pairwise_cons.1 h
      rw [List.foldl_cons, ih he.2, get?_insert]
      by_cases hname : name = e.1
      · subst hname
        simp [findEntry, findEntry_eq_none_of_forall_lt he.1]
      · simp [findEntry, hname]

/-- What the other catalog has for a name counts first. -/
@[simp] theorem get?_merge (c other : Catalog α) (name : String) :
    (c.merge other).get? name = (other.get? name).or (c.get? name) :=
  get?_foldl_insert other.ordered c name

theorem ofList_entries (c : Catalog α) : ofList c.entries = c :=
  ext_get? fun name => (get?_foldl_insert c.ordered empty name).trans (Option.or_none ..)

theorem mem_foldl_insert {l : List (String × α)} {c : Catalog α} {e : String × α}
    (h : e ∈ (l.foldl (fun acc e => acc.insert e.1 e.2) c).entries) :
    e ∈ l ∨ e ∈ c.entries := by
  induction l generalizing c with
  | nil => exact .inr h
  | cons x rest ih =>
      rcases ih h with h | h
      · exact .inl (List.mem_cons_of_mem _ h)
      · rcases mem_insertEntry h with rfl | h
        · exact .inl List.mem_cons_self
        · exact .inr h

theorem mem_of_mem_ofList {l : List (String × α)} {e : String × α}
    (h : e ∈ (ofList l).entries) : e ∈ l := by
  rcases mem_foldl_insert h with h | h
  · exact h
  · cases h

end Catalog

end NetHooks
