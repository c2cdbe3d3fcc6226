import NetHooks.Proofs.FileTree

/-!
# Walks through trees

A walk that comes to a spot takes one name after another (`FileTree.WalksTo`). It goes on in a
tree that has more (`FileTree.WalksTo.extend`), and in one with a new file at its end
(`FileTree.WalksTo.put`); a new file elsewhere is not on its way (`FileTree.WalksTo.withdraw`).
Whether it follows a link at its end makes a difference only where a link stands
(`FileTree.WalksTo.exists_kept`, `FileTree.WalksTo.followed`).
-/
namespace NetHooks.FileTree

variable {t u : FileTree} {follow : Bool} {links : Nat} {here p q : Place} {names : List String}
  {spot : Spot} {e : Entry}

/-! ### Trees -/

theorem find?_put (t : FileTree) (p q : Place) (e : Entry) :
    (t.put p e).find? q = if q = [] then some .directory else if q = p then some e else t.find? q := by
  by_cases hq : q = []
  · simp [find?, hq]
  by_cases hqp : q = p
  · simp [find?, put, hqp]
  · have hother : ((t.entries.filter fun x => x.1 ≠ p).find? fun x => x.1 = q) =
        t.entries.find? fun x => x.1 = q := by
      rw [List.find?_filter]
      congr 1
      funext x
      by_cases hx : x.1 = q <;> simp [hx, hqp]
    have hhead : ¬p = q := fun h => hqp h.symm
    simp only [find?, put, hq, hqp, if_false, List.find?_cons, hhead, decide_false]
    rw [hother]

theorem find?_put_of_ne (hq : q ≠ p) : (t.put p e).find? q = t.find? q := by
  rw [find?_put, if_neg hq]
  split
  next h => simp [find?, h]
  · rfl

theorem find?_put_self (hp : p ≠ []) : (t.put p e).find? p = some e := by
  rw [find?_put, if_neg hp, if_pos rfl]

theorem ne_nil_of_find?_eq_none (h : t.find? p = none) : p ≠ [] := by
  rintro rfl
  simp [find?] at h

@[simp] theorem put_put (t : FileTree) (p : Place) (e f : Entry) :
    (t.put p e).put p f = t.put p f := by
  simp [put, List.filter_filter]

/-- What is put where nothing stood can be removed again. -/
theorem remove_put (h : t.find? p = none) : (t.put p e).remove p = t := by
  have hp := ne_nil_of_find?_eq_none h
  have hother : ∀ x ∈ t.entries, x.1 ≠ p := by
    simpa only [find?, if_neg hp, Option.map_eq_none_iff, List.find?_eq_none,
      decide_eq_true_eq] using h
  have hkept : (t.entries.filter fun x => x.1 ≠ p) = t.entries :=
    List.filter_eq_self.2 fun x hx => decide_eq_true (hother x hx)
  simp only [put, remove, List.filter_cons, ne_eq, not_true_eq_false, decide_false,
    Bool.false_eq_true, if_false, List.filter_filter, Bool.and_self]
  rw [hkept]

/-- The tree has all that the other has. -/
structure Extends (t u : FileTree) : Prop where
  workplace_eq : u.workplace = t.workplace
  find? : ∀ p e, t.find? p = some e → u.find? p = some e

theorem Extends.refl (t : FileTree) : Extends t t := ⟨rfl, fun _ _ h => h⟩

theorem Extends.trans {v : FileTree} (h : Extends t u) (h' : Extends u v) : Extends t v :=
  ⟨h'.workplace_eq.trans h.workplace_eq, fun p e hp => h'.find? p e (h.find? p e hp)⟩

theorem extends_put (h : t.find? p = none) : Extends t (t.put p e) := by
  refine ⟨rfl, fun q f hq => ?_⟩
  have hne : q ≠ p := by
    rintro rfl
    simp [h] at hq
  rwa [find?_put_of_ne hne]

/-- The files and links of both trees are the same, and only directories may be new. -/
structure SameFiles (t u : FileTree) : Prop extends Extends t u where
  files : ∀ p e, e ≠ .directory → u.find? p = some e → t.find? p = some e

theorem SameFiles.refl (t : FileTree) : SameFiles t t := ⟨Extends.refl t, fun _ _ _ h => h⟩

theorem SameFiles.trans {v : FileTree} (h : SameFiles t u) (h' : SameFiles u v) : SameFiles t v :=
  ⟨h.toExtends.trans h'.toExtends, fun p e he hp => h.files p e he (h'.files p e he hp)⟩

theorem sameFiles_put_directory (h : t.find? p = none) : SameFiles t (t.put p .directory) := by
  refine ⟨extends_put h, fun q f hf hq => ?_⟩
  have hne : q ≠ p := by
    rintro rfl
    rw [find?_put_self (ne_nil_of_find?_eq_none h)] at hq
    exact hf (Option.some.inj hq).symm
  rwa [find?_put_of_ne hne] at hq

/-! ### Walks -/

/-- A walk along the names comes to the spot, through so many links at most. -/
inductive WalksTo (t : FileTree) (follow : Bool) : Nat → Place → List String → Spot → Prop
  | here {links : Nat} {p : Place} : WalksTo t follow links p [] (.present p)
  | stay {links : Nat} {here : Place} {name : String} {rest : List String} {spot : Spot}
      (directory : t.find? here = some .directory) (step : name = "" ∨ name = ".")
      (more : WalksTo t follow links here rest spot) :
      WalksTo t follow links here (name :: rest) spot
  | up {links : Nat} {here : Place} {rest : List String} {spot : Spot}
      (directory : t.find? here = some .directory)
      (more : WalksTo t follow links here.dropLast rest spot) :
      WalksTo t follow links here (".." :: rest) spot
  | absent {links : Nat} {here : Place} {name : String} {rest : List String}
      (directory : t.find? here = some .directory) (plain : IsPlainName name)
      (none : t.find? (here ++ [name]) = none) (last : ∀ n ∈ rest, n = "") :
      WalksTo t follow links here (name :: rest) (.absent (here ++ [name]) (!rest.isEmpty))
  | kept {links : Nat} {here : Place} {name target : String}
      (directory : t.find? here = some .directory) (plain : IsPlainName name)
      (link : t.find? (here ++ [name]) = some (.link target)) (kept : follow = false) :
      WalksTo t follow links here [name] (.present (here ++ [name]))
  | link {links : Nat} {here : Place} {name target : String} {rest : List String} {spot : Spot}
      (directory : t.find? here = some .directory) (plain : IsPlainName name)
      (link : t.find? (here ++ [name]) = some (.link target)) (passed : rest ≠ [] ∨ follow = true)
      (target_ne : target ≠ "")
      (more : WalksTo t follow links (if Path.isAbsolute target then [] else here)
        (Path.names target ++ rest) spot) :
      WalksTo t follow (links + 1) here (name :: rest) spot
  | enter {links : Nat} {here : Place} {name : String} {rest : List String} {spot : Spot}
      {e : Entry} (directory : t.find? here = some .directory) (plain : IsPlainName name)
      (entry : t.find? (here ++ [name]) = some e) (other : ∀ target, e ≠ .link target)
      (more : WalksTo t follow links (here ++ [name]) rest spot) :
      WalksTo t follow links here (name :: rest) spot

theorem walksTo_of_walk (h : t.walk follow links here names = .ok spot) :
    WalksTo t follow links here names spot := by
  fun_induction t.walk follow links here names with
  | case1 =>
      cases h
      exact .here
  | case2 => cases h
  | case3 links here name rest hdirectory hstep ih => exact .stay (not_not.1 hdirectory) hstep (ih h)
  | case4 links here rest hdirectory _ ih => exact .up (not_not.1 hdirectory) (ih h)
  | case5 => cases h
  | case6 links here name rest hdirectory hstep hup hlength hnone hlast =>
      cases h
      exact .absent (not_not.1 hdirectory) ⟨hstep, hup, Nat.not_lt.1 hlength⟩ hnone
        (by simpa using hlast)
  | case7 => cases h
  | case8 links here name rest hdirectory hstep hup hlength target hlink hkept =>
      cases h
      obtain ⟨rfl, rfl⟩ : rest = [] ∧ follow = false := by simpa using hkept
      exact .kept (not_not.1 hdirectory) ⟨hstep, hup, Nat.not_lt.1 hlength⟩ hlink rfl
  | case9 => cases h
  | case10 => cases h
  | case11 here name rest hdirectory hstep hup hlength target hlink hkept links htarget ih =>
      refine .link (not_not.1 hdirectory) ⟨hstep, hup, Nat.not_lt.1 hlength⟩ hlink ?_ htarget
        (by simpa using ih h)
      by_cases hrest : rest = []
      · exact .inr (by simpa [hrest] using hkept)
      · exact .inl hrest
  | case12 links here name rest hdirectory hstep hup hlength e hother hentry ih =>
      exact .enter (not_not.1 hdirectory) ⟨hstep, hup, Nat.not_lt.1 hlength⟩ hentry hother (ih h)

theorem walk_of_walksTo (h : WalksTo t follow links here names spot) :
    t.walk follow links here names = .ok spot := by
  induction h with
  | here => rw [walk]
  | stay directory step more ih => rw [walk, if_neg (not_not.2 directory), if_pos step, ih]
  | up directory more ih =>
      rw [walk, if_neg (not_not.2 directory), if_neg (by decide), if_pos rfl, ih]
  | absent directory plain none last =>
      rewrite [walk, if_neg (not_not.2 directory), if_neg plain.1, if_neg plain.2.1,
        if_neg (Nat.not_lt.2 plain.2.2), none]
      exact if_pos (by simpa using last)
  | kept directory plain link kept =>
      rewrite [walk, if_neg (not_not.2 directory), if_neg plain.1, if_neg plain.2.1,
        if_neg (Nat.not_lt.2 plain.2.2), link]
      exact if_pos (by simp [kept])
  | link directory plain link passed target_ne more ih =>
      rewrite [walk, if_neg (not_not.2 directory), if_neg plain.1, if_neg plain.2.1,
        if_neg (Nat.not_lt.2 plain.2.2), link]
      refine (if_neg (by simpa [or_iff_not_imp_left] using passed)).trans ?_
      exact (if_neg target_ne).trans ih
  | @enter links here name rest spot e directory plain entry other more ih =>
      rewrite [walk, if_neg (not_not.2 directory), if_neg plain.1, if_neg plain.2.1,
        if_neg (Nat.not_lt.2 plain.2.2), entry]
      cases e with
      | link target => exact absurd rfl (other target)
      | _ => exact ih

theorem walk_eq_ok : t.walk follow links here names = .ok spot ↔
    WalksTo t follow links here names spot :=
  ⟨walksTo_of_walk, walk_of_walksTo⟩

theorem locate_eq_ok {path : String} : t.locate path follow = .ok spot ↔
    refusal? path = none ∧ WalksTo t follow linkLimit (t.start path) (Path.names path) spot := by
  rw [locate, ← walk_eq_ok]
  cases refusal? path <;> simp

theorem resolve_eq_ok {path : String} :
    t.resolve path = .ok p ↔ t.locate path true = .ok (.present p) := by
  rw [resolve]
  split <;> simp_all

/-! ### What a walk comes to -/

namespace WalksTo

/-- A name that is not there has a directory around it. -/
theorem absent_place {trailing : Bool}
    (h : WalksTo t follow links here names (.absent p trailing)) :
    p ≠ [] ∧ t.find? p = none ∧ t.find? p.dropLast = some .directory := by
  generalize hspot : Spot.absent p trailing = spot at h
  induction h with
  | here => cases hspot
  | stay _ _ _ ih => exact ih hspot
  | up _ _ ih => exact ih hspot
  | absent directory _ none _ =>
      cases hspot
      exact ⟨by simp, none, by simpa using directory⟩
  | kept => cases hspot
  | link _ _ _ _ _ _ ih => exact ih hspot
  | enter _ _ _ _ _ ih => exact ih hspot

/-- Nothing is walked behind what is no directory. -/
theorem eq_nil (h : WalksTo t follow links here names spot) (hhere : t.find? here ≠ some .directory) :
    names = [] := by
  cases h with
  | here => rfl
  | stay directory => exact absurd directory hhere
  | up directory => exact absurd directory hhere
  | absent directory => exact absurd directory hhere
  | kept directory => exact absurd directory hhere
  | link directory => exact absurd directory hhere
  | enter directory => exact absurd directory hhere

/-- The last name is walked from where the names before it lead to, if they lead anywhere. -/
theorem exists_last {last : String} (h : WalksTo t follow links here (names ++ [last]) spot) :
    (∃ links here, WalksTo t follow links here [last] spot) ∨
      last = "" ∧ ∃ p, spot = .absent p true := by
  generalize hall : names ++ [last] = all at h
  have hsplit {names rest : List String} {name : String} (h : names ++ [last] = name :: rest) :
      (name = last ∧ rest = []) ∨ ∃ before, rest = before ++ [last] := by
    rcases List.append_eq_cons_iff.1 h with ⟨-, h⟩ | ⟨before, -, h⟩
    · exact .inl (by simpa [eq_comm] using h)
    · exact .inr ⟨before, h⟩
  induction h generalizing names with
  | here => simp at hall
  | stay directory step more ih =>
      rcases hsplit hall with ⟨rfl, rfl⟩ | ⟨before, rfl⟩
      · exact .inl ⟨_, _, .stay directory step more⟩
      · exact ih rfl
  | up directory more ih =>
      rcases hsplit hall with ⟨rfl, rfl⟩ | ⟨before, rfl⟩
      · exact .inl ⟨_, _, .up directory more⟩
      · exact ih rfl
  | absent directory plain none last =>
      rcases hsplit hall with ⟨rfl, rfl⟩ | ⟨before, rfl⟩
      · exact .inl ⟨0, _, .absent directory plain none (by simp)⟩
      · exact .inr ⟨last _ (by simp), _, by simp; rfl⟩
  | kept directory plain link kept =>
      rcases hsplit hall with ⟨rfl, -⟩ | ⟨before, hbefore⟩
      · exact .inl ⟨0, _, .kept directory plain link kept⟩
      · simp at hbefore
  | link directory plain link passed target_ne more ih =>
      rcases hsplit hall with ⟨rfl, rfl⟩ | ⟨before, rfl⟩
      · exact .inl ⟨_, _, .link directory plain link passed target_ne more⟩
      · exact ih (List.append_assoc _ _ _)
  | enter directory plain entry other more ih =>
      rcases hsplit hall with ⟨rfl, rfl⟩ | ⟨before, rfl⟩
      · exact .inl ⟨_, _, .enter directory plain entry other more⟩
      · exact ih rfl

theorem trailing_of_last {trailing : Bool}
    (h : WalksTo t follow links here (names ++ [""]) (.absent p trailing)) : trailing = true := by
  rcases h.exists_last with ⟨links, here, h⟩ | ⟨-, p, hspot⟩
  · generalize hlast : "" = last at h
    have hplain : ¬IsPlainName last := fun h => h.1 (.inl hlast.symm)
    cases h with
    | stay _ _ more => cases more
    | up _ _ => exact absurd hlast (by decide)
    | absent _ plain => exact absurd plain hplain
    | link _ plain => exact absurd plain hplain
    | enter _ plain => exact absurd plain hplain
  · cases hspot
    rfl

/-! ### Links at the end -/

/-- A walk that keeps the link at its end stops at this link, or where the other stops. -/
theorem exists_kept (h : WalksTo t true links here names (.present p)) :
    ∃ q, WalksTo t false links here names (.present q) ∧
      (q = p ∨ ∃ target, t.find? q = some (.link target)) := by
  generalize hspot : Spot.present p = spot at h
  induction h with
  | here => exact ⟨_, .here, .inl (by simpa [eq_comm] using hspot)⟩
  | stay directory step _ ih =>
      obtain ⟨q, hq, hp⟩ := ih hspot
      exact ⟨q, .stay directory step hq, hp⟩
  | up directory _ ih =>
      obtain ⟨q, hq, hp⟩ := ih hspot
      exact ⟨q, .up directory hq, hp⟩
  | absent => cases hspot
  | kept _ _ _ kept => cases kept
  | @link links here name target rest spot directory plain link passed target_ne more ih =>
      by_cases hrest : rest = []
      · subst hrest
        exact ⟨_, .kept directory plain link rfl, .inr ⟨target, link⟩⟩
      · obtain ⟨q, hq, hp⟩ := ih hspot
        exact ⟨q, .link directory plain link (.inl hrest) target_ne hq, hp⟩
  | enter directory plain entry other _ ih =>
      obtain ⟨q, hq, hp⟩ := ih hspot
      exact ⟨q, .enter directory plain entry other hq, hp⟩

/-- Where no link stands at the end, there is none to follow. -/
theorem followed (h : WalksTo t false links here names (.present p))
    (hp : ∀ target, t.find? p ≠ some (.link target)) :
    WalksTo t true links here names (.present p) := by
  generalize hspot : Spot.present p = spot at h
  induction h with
  | here => exact .here
  | stay directory step _ ih => exact .stay directory step (ih hspot)
  | up directory _ ih => exact .up directory (ih hspot)
  | absent => cases hspot
  | kept _ _ link _ =>
      cases hspot
      exact absurd link (hp _)
  | link directory plain link _ target_ne _ ih =>
      exact .link directory plain link (.inr rfl) target_ne (ih hspot)
  | enter directory plain entry other _ ih => exact .enter directory plain entry other (ih hspot)

/-! ### Walks in other trees -/

/-- What a walk comes to, it comes to in a tree that has more. -/
theorem extend (h : WalksTo t follow links here names (.present p)) (hu : Extends t u) :
    WalksTo u follow links here names (.present p) := by
  generalize hspot : Spot.present p = spot at h
  induction h with
  | here => exact .here
  | stay directory step _ ih => exact .stay (hu.find? _ _ directory) step (ih hspot)
  | up directory _ ih => exact .up (hu.find? _ _ directory) (ih hspot)
  | absent => cases hspot
  | kept directory plain link kept =>
      exact .kept (hu.find? _ _ directory) plain (hu.find? _ _ link) kept
  | link directory plain link passed target_ne _ ih =>
      exact .link (hu.find? _ _ directory) plain (hu.find? _ _ link) passed target_ne (ih hspot)
  | enter directory plain entry other _ ih =>
      exact .enter (hu.find? _ _ directory) plain (hu.find? _ _ entry) other (ih hspot)

/-- A walk comes to a file that is put where it ends, if no link or directory stood there. -/
theorem put {bytes : Bytes} {mode : Nat} (h : WalksTo t false links here names spot)
    (hspot : spot = .absent p false ∨ spot = .present p)
    (hdirectory : t.find? p ≠ some .directory) (hlink : ∀ target, t.find? p ≠ some (.link target)) :
    WalksTo (t.put p (.file bytes mode)) true links here names (.present p) := by
  have hroot : p ≠ [] := by
    rintro rfl
    exact hdirectory (by simp [find?])
  have hfile : (t.put p (.file bytes mode)).find? p = some (.file bytes mode) := find?_put_self hroot
  have hkept {q : Place} {e : Entry} (hq : t.find? q = some e)
      (he : e = .directory ∨ ∃ target, e = .link target) :
      (t.put p (.file bytes mode)).find? q = some e := by
    rw [find?_put_of_ne, hq]
    rintro rfl
    rcases he with rfl | ⟨target, rfl⟩
    · exact hdirectory hq
    · exact hlink target hq
  induction h with
  | here =>
      obtain rfl : _ = p := by simpa using hspot
      exact .here
  | stay directory step _ ih => exact .stay (hkept directory (.inl rfl)) step (ih hspot)
  | up directory _ ih => exact .up (hkept directory (.inl rfl)) (ih hspot)
  | @absent links here name rest directory plain _ _ =>
      obtain ⟨rfl, rfl⟩ : here ++ [name] = p ∧ rest = [] := by simpa using hspot
      exact .enter (hkept directory (.inl rfl)) plain hfile (by simp) .here
  | kept _ _ link _ =>
      obtain rfl : _ = p := by simpa using hspot
      exact absurd link (hlink _)
  | link directory plain link _ target_ne _ ih =>
      exact .link (hkept directory (.inl rfl)) plain (hkept link (.inr ⟨_, rfl⟩)) (.inr rfl)
        target_ne (ih hspot)
  | @enter links here name rest spot e directory plain entry other more ih =>
      by_cases hp : here ++ [name] = p
      · subst hp
        obtain rfl : rest = [] := more.eq_nil hdirectory
        exact .enter (hkept directory (.inl rfl)) plain hfile (by simp) .here
      · have hentry : (t.put p (.file bytes mode)).find? (here ++ [name]) = some e := by
          rw [find?_put_of_ne hp, entry]
        exact .enter (hkept directory (.inl rfl)) plain hentry other (ih hspot)

/-- A walk past a new file goes without it, unless it ends at the file. -/
theorem withdraw {bytes : Bytes} {mode : Nat} (hp : t.find? p = none)
    (h : WalksTo (t.put p (.file bytes mode)) follow links here names spot) :
    WalksTo t follow links here names spot ∨
      spot = .present p ∧ WalksTo t follow links here names (.absent p false) := by
  have hfile : (t.put p (.file bytes mode)).find? p = some (.file bytes mode) :=
    find?_put_self (ne_nil_of_find?_eq_none hp)
  have hold {q : Place} {o : Option Entry} (hq : (t.put p (.file bytes mode)).find? q = o)
      (ho : o ≠ some (.file bytes mode)) : t.find? q = o := by
    rw [← hq, find?_put_of_ne]
    rintro rfl
    exact ho (hq.symm.trans hfile)
  induction h with
  | here => exact .inl .here
  | stay directory step _ ih =>
      have hdirectory := hold directory (by simp)
      exact ih.imp (.stay hdirectory step) (And.imp_right (.stay hdirectory step))
  | up directory _ ih =>
      have hdirectory := hold directory (by simp)
      exact ih.imp (.up hdirectory) (And.imp_right (.up hdirectory))
  | absent directory plain none last =>
      exact .inl (.absent (hold directory (by simp)) plain (hold none (by simp)) last)
  | kept directory plain link kept =>
      exact .inl (.kept (hold directory (by simp)) plain (hold link (by simp)) kept)
  | link directory plain link passed target_ne _ ih =>
      have hdirectory := hold directory (by simp)
      have hlink := hold link (by simp)
      exact ih.imp (.link hdirectory plain hlink passed target_ne)
        (And.imp_right (.link hdirectory plain hlink passed target_ne))
  | @enter links here name rest spot e directory plain entry other more ih =>
      have hdirectory := hold directory (by simp)
      by_cases hplace : here ++ [name] = p
      · subst hplace
        obtain rfl : rest = [] := more.eq_nil (by simp [hfile])
        cases more
        exact .inr ⟨rfl, .absent hdirectory plain hp (by simp)⟩
      · have hentry : t.find? (here ++ [name]) = some e := by
          rw [← entry, find?_put_of_ne hplace]
        exact ih.imp (.enter hdirectory plain hentry other)
          (And.imp_right (.enter hdirectory plain hentry other))

end WalksTo

end NetHooks.FileTree
