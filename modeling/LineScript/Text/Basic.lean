/-!
# Texts

Everything the interpreter reads and writes is a sequence of bytes. A text need not be
well-formed UTF-8: names are compared byte by byte and written back unchanged.

## Main definitions

* `Text`: a sequence of bytes
* `utf8`: the encoding of a string
* `Text.before`: the order of names, by byte values
* `Text.splitLines`, `Text.joinLines`: a text and its lines
* `Text.chomp`: a line without the carriage return of a CR LF ending

## Main results

* `Text.joinLines_splitLines`: joining the lines of a text gives the text back
-/

namespace LineScript

/-- A text is a sequence of bytes, in no particular encoding. -/
abbrev Text : Type := List UInt8

/-- The UTF-8 encoding of a string. -/
def utf8 (s : String) : Text :=
  s.toList.flatMap String.utf8EncodeChar

namespace Text

/-- The byte that ends a line. -/
def newline : UInt8 := 10

/-- The byte that stands before `newline` in a CR LF ending. -/
def carriageReturn : UInt8 := 13

/-- Names are ordered lexicographically by byte value: `s.before t` says that `s` comes
strictly before `t`. -/
def before : Text → Text → Bool
  | _, [] => false
  | [], _ :: _ => true
  | a :: s, b :: t => if a = b then before s t else decide (a.toNat < b.toNat)

@[simp] theorem before_self (t : Text) : t.before t = false := by
  induction t with
  | nil => rfl
  | cons a t ih => simp [before, ih]

/-- A line without one carriage return at its end. -/
def chomp (t : Text) : Text :=
  if t.getLast? = some carriageReturn then t.dropLast else t

@[simp] theorem chomp_nil : chomp [] = [] := rfl

theorem chomp_append_carriageReturn (t : Text) : chomp (t ++ [carriageReturn]) = t := by
  simp [chomp]

theorem chomp_of_getLast?_ne {t : Text} (h : t.getLast? ≠ some carriageReturn) :
    t.chomp = t := by
  simp [chomp, h]

/-- Puts a byte in front of the first of some lines. -/
def consFirst (b : UInt8) : List Text → List Text
  | [] => [[b]]
  | l :: ls => (b :: l) :: ls

/-- The lines of a text: the pieces between its newlines. There is always one more line than
there are newlines, so a text that ends in a newline has an empty last line. -/
def splitLines (t : Text) : List Text :=
  t.foldr (fun b ls => if b = newline then [] :: ls else consFirst b ls) [[]]

@[simp] theorem splitLines_nil : splitLines [] = [[]] := rfl

@[simp] theorem splitLines_newline (t : Text) :
    splitLines (newline :: t) = [] :: splitLines t := rfl

theorem splitLines_cons {b : UInt8} (h : b ≠ newline) (t : Text) :
    splitLines (b :: t) = consFirst b (splitLines t) := by
  simp [splitLines, h]

theorem splitLines_ne_nil (t : Text) : splitLines t ≠ [] := by
  cases t with
  | nil => simp
  | cons b t =>
    by_cases h : b = newline
    · simp [h]
    · rw [splitLines_cons h]
      cases splitLines t <;> simp [consFirst]

/-- Lines joined by newlines; no newline follows the last one. -/
def joinLines : List Text → Text
  | [] => []
  | [l] => l
  | l :: ls => l ++ newline :: joinLines ls

theorem joinLines_cons {ls : List Text} (h : ls ≠ []) (l : Text) :
    joinLines (l :: ls) = l ++ newline :: joinLines ls := by
  cases ls with
  | nil => exact absurd rfl h
  | cons _ _ => rfl

theorem joinLines_consFirst (b : UInt8) (ls : List Text) :
    joinLines (consFirst b ls) = b :: joinLines ls := by
  match ls with
  | [] => rfl
  | [_] => rfl
  | _ :: _ :: _ => rfl

/-- **Splitting loses nothing**: joining the lines of a text gives the text back. -/
theorem joinLines_splitLines (t : Text) : joinLines (splitLines t) = t := by
  induction t with
  | nil => rfl
  | cons b t ih =>
    by_cases h : b = newline
    · rw [h, splitLines_newline, joinLines_cons (splitLines_ne_nil t), ih]
      rfl
    · rw [splitLines_cons h, joinLines_consFirst, ih]

end Text

end LineScript
