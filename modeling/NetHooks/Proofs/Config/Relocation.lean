import NetHooks.Config.Compile
import NetHooks.Proofs.Relocation

/-!
# Compiling lines that stand elsewhere

The places of lines reach the configuration as the places of its definitions, and its errors,
and count for nothing else: with its lines moved, a forest compiles to the same configuration
with its definitions moved, or fails with the same error (`Config.compile_relocate`).
-/
namespace NetHooks

/-! ### Catalogs of moved values -/

namespace Catalog

variable {α β : Type}

/-- The catalog with each value replaced. -/
def map (g : α → β) (c : Catalog α) : Catalog β where
  entries := c.entries.map fun e => (e.1, g e.2)
  ordered := List.pairwise_map.2 c.ordered

theorem findEntry_map (g : α → β) (name : String) (l : List (String × α)) :
    findEntry name (l.map fun e => (e.1, g e.2)) = (findEntry name l).map g := by
  induction l with
  | nil => rfl
  | cons e l ih =>
      simp only [List.map_cons, findEntry]
      split
      · rfl
      · exact ih

@[simp] theorem get?_map (g : α → β) (c : Catalog α) (name : String) :
    (c.map g).get? name = (c.get? name).map g :=
  findEntry_map g name c.entries

theorem map_insert (g : α → β) (c : Catalog α) (name : String) (value : α) :
    (c.insert name value).map g = (c.map g).insert name (g value) := by
  refine ext_get? fun key => ?_
  simp only [get?_map, get?_insert]
  split <;> rfl

end Catalog

/-! ### Moved definitions -/

variable (r : Location → Location)

def Interface.relocate (i : Interface) : Interface := { i with location := r i.location }

def Group.relocate (g : Group) : Group := { g with location := r g.location }

def Mapping.relocate (m : Mapping) : Mapping := { m with location := r m.location }

def Entity.relocate : Entity → Entity
  | interface i => interface (i.relocate r)
  | group g => group (g.relocate r)

/-- The configuration with its definitions moved. -/
def Config.relocate (c : Config) : Config where
  entities := c.entities.map (Entity.relocate r)
  mappings := c.mappings.map (Mapping.relocate r)
  allowLists := c.allowLists

@[simp] theorem Entity.name_relocate (e : Entity) : (e.relocate r).name = e.name := by
  cases e <;> rfl

@[simp] theorem Entity.location_relocate (e : Entity) :
    (e.relocate r).location = r e.location := by
  cases e <;> rfl

/-! ### Lines -/

namespace Tree

variable (t : Tree)

@[simp] theorem keyword_relocate : (t.relocate r).keyword = t.keyword := by
  rw [keyword, content_relocate, keyword]

@[simp] theorem rest_relocate : (t.relocate r).rest = t.rest := by
  rw [rest, content_relocate, rest]

theorem words_relocate : (t.relocate r).words = relocated r id t.words := by
  rw [words, content_relocate, location_relocate, wordsAt_relocate, words]

@[simp] theorem missing_relocate (expected : Operand) :
    (t.relocate r).missing expected = (t.missing expected).relocate r := by
  simp [missing, SourceError.relocate]

@[simp] theorem excess_relocate : (t.relocate r).excess = t.excess.relocate r := by
  simp [excess, SourceError.relocate]

theorem noBlock_relocate : (t.relocate r).noBlock = relocated r id t.noBlock := by
  simp only [noBlock, children_relocate, List.isEmpty_map, keyword_relocate, location_relocate]
  split <;> rfl

theorem singleName_relocate : (t.relocate r).singleName = relocated r id t.singleName := by
  refine bind_relocated (words_relocate r t) fun ws => ?_
  match ws with
  | [] | _ :: _ :: _ :: _ => exact congrArg Except.error (excess_relocate r t)
  | [_] => exact congrArg Except.error (missing_relocate r t _)
  | [_, _] => rfl

theorem verbatim_relocate : (t.relocate r).verbatim = relocated r id t.verbatim :=
  bind_relocated (noBlock_relocate r t) fun _ => congrArg Except.ok (content_relocate r t)

theorem phaseCommands_relocate :
    (t.relocate r).phaseCommands = relocated r id t.phaseCommands := by
  rw [phaseCommands, children_relocate, rest_relocate]
  refine bind_relocated (mapM_relocated t.children (k := id) (verbatim_relocate r)) fun under => ?_
  rw [List.map_id]
  rfl

theorem setting_relocate : (t.relocate r).setting = relocated r id t.setting := by
  refine bind_relocated (noBlock_relocate r t) fun _ =>
    bind_relocated (words_relocate r t) fun ws => ?_
  match ws with
  | [] => exact congrArg Except.error (missing_relocate r t _)
  | _ :: _ => rfl

theorem settings_relocate : (t.relocate r).settings = relocated r id t.settings := by
  rw [settings, children_relocate, mapM_relocated t.children (k := id) (setting_relocate r),
    settings]
  simp only [List.map_id_fun]

theorem addOptionKeys_relocate (head : String) (env : Environment)
    (options : List (Location × Setting)) :
    addOptionKeys head env (options.map fun o => (r o.1, o.2)) =
      relocated r id (addOptionKeys head env options) := by
  induction options generalizing env with
  | nil => rfl
  | cons o options ih =>
      simp only [List.map_cons, addOptionKeys]
      split
      · rfl
      · exact ih _

theorem zip_location_relocate (options : List Setting) :
    ((t.relocate r).children.map location).zip options =
      ((t.children.map location).zip options).map fun o => (r o.1, o.2) := by
  have hlocation : location ∘ relocate r = r ∘ location := funext (location_relocate r)
  rw [children_relocate, List.map_map, hlocation, ← List.map_map, List.zip_map_left]
  rfl

theorem linkType_relocate : (t.relocate r).linkType = relocated r id t.linkType := by
  refine bind_relocated (words_relocate r t) fun ws => ?_
  match ws with
  | [] | _ :: _ :: _ :: _ => exact congrArg Except.error (excess_relocate r t)
  | [_] => exact congrArg Except.error (missing_relocate r t _)
  | [_, name] =>
      refine bind_relocated (settings_relocate r t) fun options => ?_
      rw [zip_location_relocate]
      exact bind_relocated (addOptionKeys_relocate r _ _ _) fun env => rfl

theorem protocol_relocate : (t.relocate r).protocol = relocated r id t.protocol := by
  refine bind_relocated (words_relocate r t) fun ws => ?_
  match ws with
  | [] | _ :: _ :: _ :: _ :: _ => exact congrArg Except.error (excess_relocate r t)
  | [_] | [_, _] => exact congrArg Except.error (missing_relocate r t _)
  | [_, kind, method] =>
      refine bind_relocated (settings_relocate r t) fun options => ?_
      rw [zip_location_relocate]
      exact bind_relocated (addOptionKeys_relocate r _ _ _) fun env => rfl

/-! ### Statements -/

def InterfaceBody.relocate (body : InterfaceBody) : InterfaceBody :=
  { body with type? := body.type?.map fun (type, l) => (type, r l) }

theorem addToInterface_relocate (name : String) (body : InterfaceBody) :
    addToInterface name (body.relocate r) (t.relocate r) =
      relocated r (InterfaceBody.relocate r) (addToInterface name body t) := by
  simp only [addToInterface, keyword_relocate]
  split
  · exact bind_relocated (phaseCommands_relocate r t) fun _ => rfl
  split
  · cases htype : body.type? with
    | some type => simp [InterfaceBody.relocate, htype, SourceError.relocate]
    | none =>
        simp only [InterfaceBody.relocate, htype, Option.map_none]
        refine bind_relocated (linkType_relocate r t) fun type => ?_
        simp [InterfaceBody.relocate, pure, Except.pure]
  split
  · exact bind_relocated (protocol_relocate r t) fun _ => rfl
  · simp [SourceError.relocate]

theorem interface_relocate :
    (t.relocate r).interface = relocated r (Interface.relocate r) t.interface := by
  refine bind_relocated (singleName_relocate r t) fun name => ?_
  rw [children_relocate]
  refine bind_relocated (foldlM_relocated t.children
    (fun body t => addToInterface_relocate r t name body) ⟨none, [], .empty⟩) fun body => ?_
  simp [Interface.relocate, InterfaceBody.relocate, pure, Except.pure, Function.comp_def]

theorem addToGroup_relocate (name : String) (commands : Commands) :
    addToGroup name commands (t.relocate r) = relocated r id (addToGroup name commands t) := by
  simp only [addToGroup, keyword_relocate]
  split
  · exact bind_relocated (phaseCommands_relocate r t) fun _ => rfl
  · simp [SourceError.relocate]

theorem group_relocate : (t.relocate r).group = relocated r (Group.relocate r) t.group := by
  refine bind_relocated (words_relocate r t) fun ws => ?_
  match ws with
  | [] | [_] => exact congrArg Except.error (missing_relocate r t _)
  | _ :: name :: dependencies =>
      simp only [id, children_relocate]
      refine bind_relocated (foldlM_relocated t.children
        (fun commands t => addToGroup_relocate r t name commands) Commands.empty) fun commands => ?_
      simp [Group.relocate, pure, Except.pure]

theorem mapping_relocate : (t.relocate r).mapping = relocated r (Mapping.relocate r) t.mapping := by
  refine bind_relocated (singleName_relocate r t) fun name => ?_
  rw [children_relocate]
  refine bind_relocated (mapM_relocated t.children (k := id) (verbatim_relocate r)) fun rules => ?_
  simp [Mapping.relocate, pure, Except.pure]

theorem allowed_relocate : (t.relocate r).allowed = relocated r id t.allowed := by
  refine bind_relocated (noBlock_relocate r t) fun _ =>
    bind_relocated (words_relocate r t) fun ws => ?_
  match ws with
  | [] | [_] | [_, _] => exact congrArg Except.error (missing_relocate r t _)
  | _ :: _ :: _ :: _ => rfl

end Tree

/-! ### Configurations -/

namespace Config

variable (c : Config)

theorem addEntity_relocate (e : Entity) : (c.relocate r).addEntity (e.relocate r) =
    relocated r (Config.relocate r) (c.addEntity e) := by
  simp only [addEntity, relocate, Entity.name_relocate, Catalog.get?_map]
  cases c.entities.get? e.name with
  | some first => simp [SourceError.relocate]
  | none => simp [relocate, Catalog.map_insert]

theorem addMapping_relocate (m : Mapping) : (c.relocate r).addMapping (m.relocate r) =
    relocated r (Config.relocate r) (c.addMapping m) := by
  simp only [addMapping, relocate, Mapping.relocate, Catalog.get?_map]
  cases c.mappings.get? m.name with
  | some first => simp [SourceError.relocate, Mapping.relocate]
  | none => simp [relocate, Mapping.relocate, Catalog.map_insert]

theorem addRoot_relocate (t : Tree) :
    (c.relocate r).addRoot (t.relocate r) = relocated r (Config.relocate r) (c.addRoot t) := by
  simp only [addRoot, Tree.keyword_relocate]
  split
  · exact bind_relocated (Tree.allowed_relocate r t) fun _ => rfl
  split
  · exact bind_relocated (Tree.interface_relocate r t) fun i => addEntity_relocate r c (.interface i)
  split
  · exact bind_relocated (Tree.group_relocate r t) fun g => addEntity_relocate r c (.group g)
  split
  · exact bind_relocated (Tree.mapping_relocate r t) fun m => addMapping_relocate r c m
  · simp [SourceError.relocate]

/-- Lines that stand elsewhere declare the same elsewhere. -/
theorem compile_relocate (f : Forest) :
    compile (f.relocate r) = relocated r (Config.relocate r) (compile f) :=
  foldlM_relocated f (fun c t => addRoot_relocate r c t) empty

end Config

end NetHooks
