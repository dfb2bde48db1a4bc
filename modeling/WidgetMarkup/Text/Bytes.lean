namespace WidgetMarkup.Text

/-- The number of bytes of the UTF-8 form. -/
def byteSize : List Char → Nat
  | [] => 0
  | c :: s => c.utf8Size + byteSize s

/-- The characters of the first `n` bytes and those after them; nothing when byte `n` lies inside
a character or past the end. -/
def splitAtByte : Nat → List Char → Option (List Char × List Char)
  | 0, s => some ([], s)
  | _ + 1, [] => none
  | n + 1, c :: s =>
    if c.utf8Size ≤ n + 1 then
      (splitAtByte (n + 1 - c.utf8Size) s).map fun r => (c :: r.1, r.2)
    else none

@[simp] theorem byteSize_nil : byteSize [] = 0 := rfl

@[simp] theorem byteSize_cons (c : Char) (s : List Char) :
    byteSize (c :: s) = c.utf8Size + byteSize s := rfl

@[simp] theorem byteSize_append (s t : List Char) :
    byteSize (s ++ t) = byteSize s + byteSize t := by
  induction s with
  | nil => simp
  | cons c s ih => simp [ih, Nat.add_assoc]

@[simp] theorem splitAtByte_zero (s : List Char) : splitAtByte 0 s = some ([], s) := by
  cases s <;> rfl

theorem splitAtByte_byteSize (s t : List Char) :
    splitAtByte (byteSize s) (s ++ t) = some (s, t) := by
  induction s with
  | nil => simp
  | cons c s ih =>
    have hc := c.utf8Size_pos
    obtain ⟨n, hn⟩ : ∃ n, c.utf8Size + byteSize s = n + 1 := ⟨_, (Nat.succ_pred (by omega)).symm⟩
    have hle : c.utf8Size ≤ n + 1 := by omega
    have hsub : n + 1 - c.utf8Size = byteSize s := by omega
    simp [hn, splitAtByte, hle, hsub, ih]

end WidgetMarkup.Text
