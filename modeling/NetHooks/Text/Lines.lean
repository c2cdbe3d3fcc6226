/-!
# Physical lines and separated pieces

A text is cut into physical lines at each line feed; one carriage return before the
line feed belongs to the line end, and a text that ends in a line feed has no empty
line after it. `pieces` cuts at every separator and keeps the empty pieces.
-/
namespace NetHooks.Text

/-- Put a character in front of the first line, or begin a line with it. -/
def consToFirst (c : Char) : List (List Char) → List (List Char)
  | [] => [[c]]
  | l :: ls => (c :: l) :: ls

def lines : List Char → List (List Char)
  | [] => []
  | '\r' :: '\n' :: rest => [] :: lines rest
  | '\n' :: rest => [] :: lines rest
  | c :: rest => consToFirst c (lines rest)

def pieces (separator : Char) : List Char → List (List Char)
  | [] => [[]]
  | c :: rest =>
      if c = separator then [] :: pieces separator rest
      else consToFirst c (pieces separator rest)

theorem pieces_ne_nil (separator : Char) (s : List Char) : pieces separator s ≠ [] := by
  cases s with
  | nil => simp [pieces]
  | cons c rest =>
      simp only [pieces]
      split
      · simp
      · cases pieces separator rest <;> simp [consToFirst]

theorem length_consToFirst_le (c : Char) (ls : List (List Char)) :
    (consToFirst c ls).length ≤ ls.length + 1 := by
  cases ls <;> simp [consToFirst]

/-- There are never more lines than characters. -/
theorem length_lines_le (s : List Char) : (lines s).length ≤ s.length := by
  fun_induction lines s with
  | case1 => simp
  | case2 rest ih => simp; omega
  | case3 rest ih => simp; omega
  | case4 c rest _ _ ih =>
      have h : ∀ ls : List (List Char), ls ≠ [] → (consToFirst c ls).length = ls.length := by
        intro ls hls
        cases ls with
        | nil => exact absurd rfl hls
        | cons l ls => simp [consToFirst]
      have := length_consToFirst_le c (lines rest)
      simp only [List.length_cons]
      omega

end NetHooks.Text
