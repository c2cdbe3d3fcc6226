import NetHooks.Store.Basic
import NetHooks.Proofs.Text

/-!
# The written form of entries

Which entries are read back as they were written: those whose names and values fill their
side of a line exactly. Whatever is read is of this kind, so the condition is exact.
-/
namespace NetHooks

/-- Nothing is lost of the text on a line: it has no line feed, and no blanks at its ends. -/
structure Text.Plain (s : String) : Prop where
  feedless : '\n' ∉ s.toList
  trimmed : Text.trim s.toList = s.toList

namespace Entries

/-- Neither side of the entry's line is empty, and its first equals sign stands between
them. -/
structure Sided (e : String × String) : Prop where
  name_ne : e.1 ≠ ""
  name_sign : '=' ∉ e.1.toList
  value_ne : e.2 ≠ ""

/-- The entry fills both sides of its line exactly. -/
structure Writable (e : String × String) : Prop extends Sided e where
  name_plain : Text.Plain e.1
  value_plain : Text.Plain e.2

/-- The line of an entry, without its end. -/
def line (e : String × String) : List Char :=
  e.1.toList ++ '=' :: e.2.toList

theorem toList_renderEntry (e : String × String) :
    (renderEntry e).toList = line e ++ ['\n'] := by
  simp [renderEntry, line]

variable {e : String × String}

/-- A writable entry is read from its line. -/
theorem Writable.ofLine?_line (h : Writable e) : ofLine? (line e) = some e := by
  have hname : ∀ c ∈ e.1.toList, (c != '=') = true := by
    intro c hc
    exact bne_iff_ne.2 fun heq => h.name_sign (heq ▸ hc)
  have hdrop : (line e).dropWhile (· != '=') = '=' :: e.2.toList := by
    rw [line, List.dropWhile_append_of_pos hname]
    rfl
  have htake : (line e).takeWhile (· != '=') = e.1.toList := by
    rw [line, List.takeWhile_append_of_pos hname]
    simp
  simp [ofLine?, hdrop, htake, h.name_plain.trimmed, h.value_plain.trimmed, h.name_ne, h.value_ne]

theorem Writable.not_mem_line (h : Writable e) : '\n' ∉ line e := by
  simp [line, h.name_plain.feedless, h.value_plain.feedless]

theorem Writable.getLast?_line_ne (h : Writable e) : (line e).getLast? ≠ some '\r' := by
  have hne : e.2.toList ≠ [] := by simpa using h.value_ne
  have htrimmed := Text.trimEnd_eq_of_trim_eq h.value_plain.trimmed
  have hlast := Text.getLast?_append_ne_of_trimEnd_eq htrimmed hne (e.1.toList ++ ['='])
  simpa [line] using hlast

/-- What is read from a line without line feeds is writable. -/
theorem writable_of_ofLine? {l : List Char} (hfeed : '\n' ∉ l) (h : ofLine? l = some e) :
    Writable e := by
  simp only [ofLine?] at h
  split at h
  · cases h
  next after hdrop =>
    split at h
    · cases h
    next hne =>
      cases h
      simp only [Bool.or_eq_true, List.isEmpty_iff, not_or] at hne
      have hafter : ∀ c ∈ after, c ∈ l := fun c hc =>
        (List.dropWhile_suffix _).subset (hdrop ▸ List.mem_cons_of_mem _ hc)
      have hbefore : ∀ c ∈ l.takeWhile (· != '='), c ∈ l := fun c hc =>
        (List.takeWhile_prefix _).subset hc
      refine ⟨⟨by simpa using hne.1, ?_, by simpa using hne.2⟩, ⟨?_, by simp⟩, ⟨?_, by simp⟩⟩
      · intro hm
        have hsign := List.mem_takeWhile_imp (Text.mem_of_mem_trim (by simpa using hm))
        simp at hsign
      · simpa using fun hm => hfeed (hbefore _ (Text.mem_of_mem_trim hm))
      · simpa using fun hm => hfeed (hafter _ (Text.mem_of_mem_trim hm))

theorem writable_of_mem_parse {text : String} (h : e ∈ (parse text).entries) : Writable e := by
  obtain ⟨l, hl, he⟩ := List.mem_filterMap.1 (Catalog.mem_of_mem_ofList h)
  exact writable_of_ofLine? (Text.not_mem_of_mem_lines hl) he

/-- The lines of writable entries are those that were written. -/
theorem lines_of_writable {l : List (String × String)} (h : ∀ e ∈ l, Writable e) :
    Text.lines (String.join (l.map renderEntry)).toList = l.map line := by
  have hjoin : (String.join (l.map renderEntry)).toList = l.flatMap fun e => line e ++ ['\n'] := by
    rw [String.toList_join, List.flatMap_map]
    exact List.flatMap_congr fun e _ => toList_renderEntry e
  rw [hjoin, Text.lines_flatMap (fun e he => (h e he).not_mem_line)
    fun e he => (h e he).getLast?_line_ne]

/-- Entries are read back from their written form exactly when all of them are writable. -/
theorem parse_render_iff (entries : Entries) :
    parse entries.render = entries ↔ ∀ e ∈ entries.entries, Writable e := by
  constructor
  · intro h e he
    exact writable_of_mem_parse (h ▸ he)
  · intro h
    rw [parse, render, lines_of_writable h, List.filterMap_map]
    have hread : entries.entries.filterMap (ofLine? ∘ line) = entries.entries.filterMap some :=
      List.filterMap_congr fun e he => (h e he).ofLine?_line
    rw [hread, List.filterMap_some, Catalog.ofList_entries]

end Entries

/-! ### By characters -/

/-- Neither the first nor the last character of the text is blank. -/
structure Text.Unpadded (s : String) : Prop where
  first : ∀ c ∈ s.toList.head?, isBlank c = false
  last : ∀ c ∈ s.toList.getLast?, isBlank c = false

theorem Text.plain_iff {s : String} : Plain s ↔ '\n' ∉ s.toList ∧ Unpadded s := by
  constructor
  · intro h
    obtain ⟨hfirst, hlast⟩ := trim_eq_self_iff.1 h.trimmed
    exact ⟨h.feedless, hfirst, hlast⟩
  · rintro ⟨hfeed, hfirst, hlast⟩
    exact ⟨hfeed, trim_eq_self_iff.2 ⟨hfirst, hlast⟩⟩

namespace Entries

/-- The characters of a name and its value leave room for the sign between them, for the end of the
line, and for the blanks that are taken away. -/
structure Legible (name value : String) : Prop where
  name_ne : name ≠ ""
  name_unpadded : Text.Unpadded name
  name_sign : '=' ∉ name.toList
  name_feed : '\n' ∉ name.toList
  value_ne : value ≠ ""
  value_unpadded : Text.Unpadded value
  value_feed : '\n' ∉ value.toList

theorem writable_iff_legible {name value : String} :
    Writable (name, value) ↔ Legible name value := by
  constructor
  · intro h
    obtain ⟨hnameFeed, hname⟩ := Text.plain_iff.1 h.name_plain
    obtain ⟨hvalueFeed, hvalue⟩ := Text.plain_iff.1 h.value_plain
    exact ⟨h.name_ne, hname, h.name_sign, hnameFeed, h.value_ne, hvalue, hvalueFeed⟩
  · intro h
    have hname : Text.Plain name := Text.plain_iff.2 ⟨h.name_feed, h.name_unpadded⟩
    have hvalue : Text.Plain value := Text.plain_iff.2 ⟨h.value_feed, h.value_unpadded⟩
    exact ⟨⟨h.name_ne, h.name_sign, h.value_ne⟩, hname, hvalue⟩

/-- Entries are read back from their written form exactly when all of them are legible. Whatever is
read from a text is so, and is read back. -/
theorem parse_render_iff_legible (entries : Entries) (text : String) :
    (parse entries.render = entries ↔
      ∀ name value, entries.get? name = some value → Legible name value) ∧
    (∀ name value, (parse text).get? name = some value → Legible name value) ∧
    parse (parse text).render = parse text := by
  have hread : ∀ e ∈ (parse text).entries, Writable e := fun e he => writable_of_mem_parse he
  refine ⟨?_, fun name value hget => ?_, (parse_render_iff _).2 hread⟩
  · rw [parse_render_iff]
    constructor
    · intro h name value hget
      exact writable_iff_legible.1 (h (name, value) (Catalog.mem_entries_iff.2 hget))
    · rintro h ⟨name, value⟩ he
      exact writable_iff_legible.2 (h name value (Catalog.mem_entries_iff.1 he))
  · exact writable_iff_legible.1 (hread (name, value) (Catalog.mem_entries_iff.2 hget))

/-- Lines that end in different ways, lines that say nothing, two lines for one name, and a second
sign. -/
theorem parse_render_iff_legible_mixed :
    let read := parse "eth0=eth0\r\ngarbage\n=lan\nbr0= \n wlan0\t=\u2003home = office\neth0=lan\r"
    read.get? "wlan0" = some "home = office" ∧ Legible "wlan0" "home = office" ∧
      read.get? "eth0" = some "lan" ∧ parse read.render = read := by
  intro read
  have hwlan : read.get? "wlan0" = some "home = office" := by decide +kernel
  have heth : read.get? "eth0" = some "lan" := by decide +kernel
  obtain ⟨-, hlegible, hback⟩ := parse_render_iff_legible .empty
    "eth0=eth0\r\ngarbage\n=lan\nbr0= \n wlan0\t=\u2003home = office\neth0=lan\r"
  exact ⟨hwlan, hlegible _ _ hwlan, heth, hback⟩

end Entries

end NetHooks
