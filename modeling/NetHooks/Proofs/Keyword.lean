import NetHooks.Proofs.Config.Statement
import NetHooks.Proofs.Source.Run
import NetHooks.Source.Library

/-!
# Keywords and first words

What a line is follows from its keyword, which is its first token; its operands are words.
A line that is accepted has words, and the first of them is the keyword exactly when
separators stand around the keyword. Other blanks become a part of the first word; this does
not matter to any line but a guard, which takes its sense from there.
-/
namespace NetHooks

/-! ### Directives -/

namespace Feed

variable {library : Library} {f g after : Feed} {line : LogicalLine} {level : Nat} {l : Location}

/-- A directive that is obeyed was read. -/
theorem exists_read_of_step (h : f.Reads line level l g) (hvisible : isHidden g.guards = false)
    (hkeyword : line.keyword ∈ Directive.keywords) (hstep : step library f = .working after) :
    ∃ d, Directive.read line.keyword line.text l = .ok (some d) ∧
      step library f = obey library g level l d := by
  rw [step_of_reads h, hvisible, if_neg Bool.false_ne_true] at hstep ⊢
  cases hread : Directive.read line.keyword line.text l with
  | error e => simp [takeLine_of_error hread] at hstep
  | ok d? =>
      rcases Directive.read_cases hread with ⟨hother, -⟩ | ⟨_, _, d, -, -, rfl⟩
      · exact absurd hkeyword hother
      · exact ⟨d, rfl, takeLine_of_directive hread⟩

end Feed

/-! ### Declarations -/

namespace Tree

variable {t : Tree} {name : String}

/-- The keywords of the lines whose words are read. -/
def declaring : List String :=
  ["allow", "iface", "interface", "group", "mapping", "type", "proto"]

/-- The keyword of a declaration has no quotes. -/
theorem not_mem_of_mem_declaring {keyword : String} (h : keyword ∈ declaring) :
    keyword.toList ≠ [] ∧ '"' ∉ keyword.toList := by
  revert keyword
  decide

theorem exists_words_of_singleName (h : t.singleName = .ok name) : ∃ ws, t.words = .ok ws := by
  obtain ⟨ws, hws, -⟩ := bind_eq_ok.1 h
  exact ⟨ws, hws⟩

/-- A type or a protocol that is accepted under an interface has words. -/
theorem exists_words_of_addToInterface {body body' : InterfaceBody}
    (hkeyword : t.keyword = "type" ∨ t.keyword = "proto")
    (h : addToInterface name body t = .ok body') : ∃ ws, t.words = .ok ws := by
  have hphase : Phase.ofKeyword? t.keyword = none := by
    rcases hkeyword with hkeyword | hkeyword <;> rw [hkeyword] <;> rfl
  simp only [addToInterface, hphase] at h
  split at h
  · split at h
    · cases h
    · obtain ⟨type, htype, -⟩ := bind_eq_ok.1 h
      obtain ⟨ws, hws, -⟩ := bind_eq_ok.1 htype
      exact ⟨ws, hws⟩
  · split at h
    · obtain ⟨protocol, hprotocol, -⟩ := bind_eq_ok.1 h
      obtain ⟨ws, hws, -⟩ := bind_eq_ok.1 hprotocol
      exact ⟨ws, hws⟩
    · cases h

end Tree

namespace Config

open NetHooks.Tree (declaring)

variable {c c' : Config} {t root : Tree} {f : Forest}

/-- A statement that is accepted has words, and a keyword of its own. -/
theorem exists_words_of_addRoot (h : c.addRoot t = .ok c') :
    t.keyword ∈ declaring ∧ ∃ ws, t.words = .ok ws := by
  cases addRoot_eq_ok.1 h with
  | allowed hkeyword hread =>
      obtain ⟨-, -, hread⟩ := bind_eq_ok.1 hread
      obtain ⟨ws, hws, -⟩ := bind_eq_ok.1 hread
      exact ⟨by simp [declaring, hkeyword], ws, hws⟩
  | interface hkeyword hread =>
      obtain ⟨name, hname, -⟩ := bind_eq_ok.1 hread
      exact ⟨by rcases hkeyword with hkeyword | hkeyword <;> simp [declaring, hkeyword],
        Tree.exists_words_of_singleName hname⟩
  | group hkeyword hread =>
      obtain ⟨ws, hws, -⟩ := bind_eq_ok.1 hread
      exact ⟨by simp [declaring, hkeyword], ws, hws⟩
  | mapping hkeyword hread =>
      obtain ⟨name, hname, -⟩ := bind_eq_ok.1 hread
      exact ⟨by simp [declaring, hkeyword], Tree.exists_words_of_singleName hname⟩

/-- The lines under an interface that is accepted are accepted one by one. -/
theorem exists_words_of_child (h : c.addRoot root = .ok c')
    (hroot : root.keyword = "iface" ∨ root.keyword = "interface") (ht : t ∈ root.children)
    (hkeyword : t.keyword = "type" ∨ t.keyword = "proto") : ∃ ws, t.words = .ok ws := by
  have hallow : root.keyword ≠ "allow" := by
    rcases hroot with hroot | hroot <;> rw [hroot] <;> decide
  simp only [addRoot, hallow, if_false, if_pos hroot] at h
  obtain ⟨interface, hinterface, -⟩ := bind_eq_ok.1 h
  obtain ⟨name, -, hbody⟩ := bind_eq_ok.1 hinterface
  obtain ⟨body, hbody, -⟩ := bind_eq_ok.1 hbody
  obtain ⟨before, after, hstep⟩ := exists_step_of_foldlM ht hbody
  exact Tree.exists_words_of_addToInterface hkeyword hstep

/-- The statements of a forest, and the types and protocols of its interfaces. -/
inductive Declares (f : Forest) : Tree → Prop
  | statement {t : Tree} (h : t ∈ f) : Declares f t
  | detail {root t : Tree} (h : root ∈ f)
      (ofInterface : root.keyword = "iface" ∨ root.keyword = "interface") (under : t ∈ root.children)
      (keyword : t.keyword = "type" ∨ t.keyword = "proto") : Declares f t

/-- Whatever a forest declares that compiles has words. -/
theorem exists_words_of_declares (h : Config.compile f = .ok c) (ht : Declares f t) :
    t.keyword ∈ declaring ∧ ∃ ws, t.words = .ok ws := by
  cases ht with
  | statement ht =>
      obtain ⟨before, after, hstep⟩ := exists_step_of_foldlM ht h
      exact exists_words_of_addRoot hstep
  | detail hroot hinterface ht hkeyword =>
      obtain ⟨before, after, hstep⟩ := exists_step_of_foldlM hroot h
      refine ⟨?_, exists_words_of_child hstep hinterface ht hkeyword⟩
      rcases hkeyword with hkeyword | hkeyword <;> simp [declaring, hkeyword]

end Config

/-! ### The first word -/

/-- Every line that is obeyed as a directive, and every line of a forest that is accepted as a
declaration, has words, and the first is the keyword exactly when separators stand around the
keyword. A guard looks for the definition that its keyword names, except that an `ifdef`
without separators around it looks for the opposite. -/
theorem first_word_eq_keyword_iff {library : Library} :
    (∀ (f g after : Feed) (line : LogicalLine) (level : Nat) (l : Location),
      f.Reads line level l g → Feed.isHidden g.guards = false →
      line.keyword ∈ Directive.keywords → Feed.step library f = .working after →
      ∃ ws, words line.text = .ok ws ∧
        (ws.head? = some line.keyword ↔ Words.isSeparated line.text.toList = true) ∧
        (line.keyword = "ifdef" ∨ line.keyword = "ifndef" →
          ∃ first identifier, ws = [first, identifier] ∧
            after = { g with guards :=
              ⟨level, f.definitions.contains identifier == line.readsPresence⟩ :: g.guards })) ∧
    ∀ (f : Forest) (c : Config) (t : Tree), Config.compile f = .ok c → Config.Declares f t →
      ∃ ws, t.words = .ok ws ∧
        (ws.head? = some t.keyword ↔ Words.isSeparated t.content.toList = true) := by
  refine ⟨fun f g after line level l hreads hvisible hkeyword hstep => ?_, fun f c t hc ht => ?_⟩
  · obtain ⟨d, hread, hobey⟩ := Feed.exists_read_of_step hreads hvisible hkeyword hstep
    obtain ⟨first, operands, hwords, hspells⟩ := Directive.spells_of_read hread
    obtain ⟨hne, hquote⟩ := Directive.not_mem_of_mem_keywords hkeyword
    refine ⟨_, hwords, head?_words_eq_keyword_iff rfl hne hquote hwords, fun hguard => ?_⟩
    cases hspells with
    | guard identifier _ _ =>
        refine ⟨first, identifier, rfl, ?_⟩
        rw [hobey, Feed.obey] at hstep
        rw [← Feed.Step.working.inj hstep, hreads.definitions_eq,
          LogicalLine.readsPresence_of_read hread]
    | _ => simp_all
  · obtain ⟨hkeyword, ws, hws⟩ := Config.exists_words_of_declares hc ht
    obtain ⟨hne, hquote⟩ := Tree.not_mem_of_mem_declaring hkeyword
    exact ⟨ws, hws, head?_words_eq_keyword_iff rfl hne hquote (wordsAt_eq_ok.1 hws)⟩

/-- A form feed after `ifdef` belongs to the first word, a carriage return after `type` does
not. -/
theorem first_word_eq_keyword_iff_form_feed :
    let library := FileTree.library ⟨[], []⟩
    let line : LogicalLine := ⟨1, 0, "ifdef\x0cX Y"⟩
    let f : Feed := .ofText library "interfaces" "ifdef\x0cX Y\n  iface a\n"
    let g : Feed := { f with segments :=
      [⟨"interfaces", 0, ⟨[0]⟩, some ⟨library.identify "interfaces", [⟨2, 2, "iface a"⟩]⟩, none⟩] }
    let detail : Tree := .node ⟨1, "type\rether", ⟨"interfaces", 2⟩⟩ []
    let forest : Forest := [.node ⟨0, "iface a", ⟨"interfaces", 1⟩⟩ [detail]]
    f.Reads line 0 ⟨"interfaces", 1⟩ g ∧ Feed.isHidden g.guards = false ∧
      line.keyword ∈ Directive.keywords ∧
      Feed.step library f = .working { g with guards := [⟨0, true⟩] } ∧
      (∃ ws, words line.text = .ok ws ∧ ws.head? ≠ some line.keyword) ∧
      (Config.compile forest).toOption.isSome = true ∧ Config.Declares forest detail ∧
      ∃ ws, detail.words = .ok ws ∧ ws.head? = some detail.keyword := by
  intro library line f g detail forest
  have hreads : f.Reads line 0 ⟨"interfaces", 1⟩ g :=
    @Feed.Reads.intro f ⟨"interfaces", 0, .empty, some ⟨_, [line, ⟨2, 2, "iface a"⟩]⟩, none⟩ []
      (library.identify "interfaces") line [⟨2, 2, "iface a"⟩] ⟨[0]⟩ rfl rfl rfl
  have hkeyword : line.keyword ∈ Directive.keywords := by decide
  have hstep : Feed.step library f = .working { g with guards := [⟨0, true⟩] } := rfl
  have hcompile : (Config.compile forest).toOption.isSome = true := by decide +kernel
  have hdeclares : Config.Declares forest detail :=
    .detail List.mem_cons_self (.inl (by decide)) List.mem_cons_self (.inl (by decide))
  obtain ⟨ws, hws, hiff, -⟩ := first_word_eq_keyword_iff.1 f g _ line _ _ hreads rfl hkeyword hstep
  have hother : ws.head? ≠ some line.keyword := fun h => absurd (hiff.1 h) (by decide)
  refine ⟨hreads, rfl, hkeyword, hstep, ⟨ws, hws, hother⟩, hcompile, hdeclares, ?_⟩
  cases hc : Config.compile forest with
  | error e =>
      rw [hc] at hcompile
      cases hcompile
  | ok c =>
      obtain ⟨ws, hws, hiff⟩ := (@first_word_eq_keyword_iff library).2 forest c detail hc hdeclares
      exact ⟨ws, hws, hiff.2 (by decide)⟩

/-- A form feed before `ifdef` is a part of the first word, and the guard holds although there
is no such definition. -/
theorem first_word_ne_keyword_form_feed :
    let library := FileTree.library ⟨[], []⟩
    let line : LogicalLine := ⟨1, 0, "\x0cifdef X"⟩
    let f : Feed := .ofText library "interfaces" "\x0cifdef X\n  iface a\n"
    let g : Feed := { f with segments :=
      [⟨"interfaces", 0, ⟨[0]⟩, some ⟨library.identify "interfaces", [⟨2, 2, "iface a"⟩]⟩, none⟩] }
    f.Reads line 0 ⟨"interfaces", 1⟩ g ∧ Feed.isHidden g.guards = false ∧
      line.keyword = "ifdef" ∧ Feed.step library f = .working { g with guards := [⟨0, true⟩] } ∧
      words line.text = .ok ["\x0cifdef", "X"] ∧ f.definitions.contains "X" = false := by
  intro library line f g
  have hreads : f.Reads line 0 ⟨"interfaces", 1⟩ g :=
    @Feed.Reads.intro f ⟨"interfaces", 0, .empty, some ⟨_, [line, ⟨2, 2, "iface a"⟩]⟩, none⟩ []
      (library.identify "interfaces") line [⟨2, 2, "iface a"⟩] ⟨[0]⟩ rfl rfl rfl
  exact ⟨hreads, rfl, by decide, rfl, by decide, by decide⟩

end NetHooks
