/-!
# Text measured in bytes

Text as a list of characters, measured in bytes of its UTF-8 encoding. Taking
and dropping by bytes split a text where the cut falls between two
characters (`takeBytes_append_dropBytes`).
-/

namespace DiceNotation

/-- Characters in reading order. -/
abbrev Text := List Char

namespace Text

/-- The number of bytes of the UTF-8 encoding. -/
def byteSize : Text → Nat
  | [] => 0
  | head :: rest => head.utf8Size + byteSize rest

@[simp]
theorem byteSize_nil : byteSize [] = 0 := rfl

@[simp]
theorem byteSize_cons (head : Char) (rest : Text) :
    byteSize (head :: rest) = head.utf8Size + byteSize rest := rfl

/-- Bytes of texts put together add up. -/
@[simp]
theorem byteSize_append (front rest : Text) :
    byteSize (front ++ rest) = byteSize front + byteSize rest := by
  induction front with
  | nil => simp
  | cons head front inductionHypothesis =>
      simp [inductionHypothesis, Nat.add_assoc]

theorem byteSize_pos {text : Text} (nonempty : text ≠ []) :
    0 < byteSize text := by
  cases text with
  | nil => contradiction
  | cons head rest =>
      have positive := head.utf8Size_pos
      rw [byteSize_cons]
      omega

/-- The characters that begin before byte `count`. -/
def takeBytes : Nat → Text → Text
  | _, [] => []
  | 0, _ :: _ => []
  | count + 1, head :: rest =>
      head :: takeBytes (count + 1 - head.utf8Size) rest

/-- What `takeBytes` leaves. -/
def dropBytes : Nat → Text → Text
  | _, [] => []
  | 0, head :: rest => head :: rest
  | count + 1, head :: rest => dropBytes (count + 1 - head.utf8Size) rest

/-- Nothing is lost wherever the text is cut. -/
theorem takeBytes_append_dropBytes (count : Nat) (text : Text) :
    takeBytes count text ++ dropBytes count text = text := by
  induction text generalizing count with
  | nil => cases count <;> rfl
  | cons head rest inductionHypothesis =>
      cases count with
      | zero => rfl
      | succ count => simp [takeBytes, dropBytes, inductionHypothesis]

@[simp]
theorem takeBytes_byteSize_append (front rest : Text) :
    takeBytes (byteSize front) (front ++ rest) = front := by
  induction front with
  | nil => cases rest <;> rfl
  | cons head front inductionHypothesis =>
      obtain ⟨size, positive⟩ :=
        Nat.exists_eq_add_one_of_ne_zero
          (Nat.ne_of_gt head.utf8Size_pos)
      have total :
          byteSize (head :: front) = (size + byteSize front) + 1 := by
        simp only [byteSize_cons, positive]
        omega
      have remaining :
          size + byteSize front + 1 - head.utf8Size =
            byteSize front := by
        omega
      rw [total, List.cons_append, takeBytes, remaining,
        inductionHypothesis]

@[simp]
theorem dropBytes_byteSize_append (front rest : Text) :
    dropBytes (byteSize front) (front ++ rest) = rest := by
  have whole :=
    takeBytes_append_dropBytes (byteSize front) (front ++ rest)
  rw [takeBytes_byteSize_append] at whole
  exact List.append_cancel_left whole

end Text

end DiceNotation
