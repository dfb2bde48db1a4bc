import WidgetMarkup.Json.Record
import WidgetMarkup.Proofs.QuotedStrings

namespace WidgetMarkup.Json

variable {α β σ : Type}

/-- A value ends where the text does, or at what follows it in a list or an object. -/
def Ends (rest : List Char) : Prop := ∀ c, rest.head? = some c → c = ',' ∨ c = ']' ∨ c = '\x7d'

theorem Ends.eq {rest : List Char} (h : Ends rest) :
    rest = [] ∨ (∃ s, rest = ',' :: s) ∨ (∃ s, rest = ']' :: s) ∨ ∃ s, rest = '\x7d' :: s := by
  cases rest with
  | nil => exact .inl rfl
  | cons c s =>
      rcases h c rfl with rfl | rfl | rfl
      · exact .inr (.inl ⟨s, rfl⟩)
      · exact .inr (.inr (.inl ⟨s, rfl⟩))
      · exact .inr (.inr (.inr ⟨s, rfl⟩))

theorem Ends.not_digit {rest : List Char} (h : Ends rest) :
    ∀ c, rest.head? = some c → c.isDigit = false := by
  intro c hc
  rcases h c hc with rfl | rfl | rfl <;> rfl

theorem skipSpace_cons {c : Char} (hc : isSpace c = false) (s : List Char) :
    skipSpace (c :: s) = c :: s := List.dropWhile_cons_of_neg (by simp [hc])

/-- What stands behind the first of several texts with commas between them. -/
def further (ts : List (List Char)) : List Char := ts.flatMap fun t => ',' :: t

theorem further_cons (t : List Char) (ts : List (List Char)) :
    further (t :: ts) = ',' :: (t ++ further ts) := List.flatMap_cons

theorem ends_further (ts : List (List Char)) {c : Char} (hc : c = ']' ∨ c = '\x7d')
    (rest : List Char) : Ends (further ts ++ c :: rest) := by
  intro d hd
  cases ts with
  | nil =>
      cases hd
      exact .inr hc
  | cons t ts =>
      cases hd
      exact .inl rfl

theorem intercalate_further (t : List Char) (ts : List (List Char)) :
    [','].intercalate (t :: ts) = t ++ further ts := by
  induction ts generalizing t with
  | nil => simp [further]
  | cons u ts ih =>
      rw [List.intercalate_cons_cons, ih, further_cons, List.append_assoc]
      rfl

/-- Wherever the text of a value stands, the reader takes it as `a` and leaves the rest. -/
def Reads (r : Reader α) (text : List Char) (a : α) : Prop :=
  ∀ rest, Ends rest → r (text ++ rest) = .ok (a, rest)

theorem Reads.readAll {r : Reader α} {text : List Char} {a : α} (h : Reads r text a) :
    readAll r (String.ofList text) = .ok a := by
  have hread := h [] (by simp [Ends])
  rw [List.append_nil] at hread
  simp [Json.readAll, hread, bind, Except.bind, skipSpace]

theorem quoted_append (s rest : List Char) :
    quoted s ++ rest = '\x22' :: (s.flatMap escaped ++ '\x22' :: rest) := by
  rw [quoted, List.append_assoc, List.cons_append, List.singleton_append]

theorem string_quoted (s : String) (rest : List Char) :
    string (quoted s.toList ++ rest) = .ok (s, rest) := by
  rw [string, quoted_append, skipSpace_cons rfl]
  simp [stringBody_quoted, Except.map]

theorem reads_string (s : String) : Reads string (quoted s.toList) s :=
  fun rest _ => string_quoted s rest

namespace Decimal

theorem digit_digitChar : ∀ n < 10, digit (Nat.digitChar n) = n := by decide

theorem pushInteger_digitChar {n d : Nat} (hd : d < 10) (hn : n * 10 + d < wordBound) :
    pushInteger { significand := n } (Nat.digitChar d) = { significand := n * 10 + d } := by
  rw [pushInteger, digit_digitChar d hd]
  simp [Nat.not_le.2 hn]

theorem foldl_pushInteger {n : Nat} (hn : n < wordBound) :
    (Nat.toDigits 10 n).foldl pushInteger {} = { significand := n } := by
  induction n using Nat.strongRecOn with
  | ind n ih =>
    rw [Nat.toDigits_eq_if (by decide)]
    split
    case isTrue hlt =>
      simpa using @pushInteger_digitChar 0 n hlt (by simpa using hn)
    case isFalse hge =>
      have hdivide : n / 10 * 10 + n % 10 = n := by omega
      rw [List.foldl_append, ih (n / 10) (by omega) (by omega), List.foldl_cons, List.foldl_nil,
        pushInteger_digitChar (by omega) (by omega), hdivide]

end Decimal

theorem head?_toDigits {n : Nat} (hn : n ≠ 0) : (Nat.toDigits 10 n).head? ≠ some '0' := by
  induction n using Nat.strongRecOn with
  | ind n ih =>
    rw [Nat.toDigits_eq_if (by decide)]
    split
    case isTrue hlt =>
      have hzero : ∀ d < 10, Nat.digitChar d = '0' → d = 0 := by decide
      simpa using fun h => hn (hzero n hlt h)
    case isFalse hge =>
      have hrest := ih (n / 10) (by omega) (by omega)
      cases hdigits : Nat.toDigits 10 (n / 10) with
      | nil => exact absurd hdigits Nat.toDigits_ne_nil
      | cons d ds => rwa [hdigits] at hrest

theorem digits_append (early : Failure) {ds rest : List Char} (hne : ds ≠ [])
    (hall : ∀ c ∈ ds, c.isDigit = true) (hrest : ∀ c, rest.head? = some c → c.isDigit = false) :
    digits early (ds ++ rest) = .ok (ds, rest) := by
  have htake : (ds ++ rest).takeWhile Char.isDigit = ds := by
    rw [List.takeWhile_append_of_pos hall]
    cases rest with
    | nil => exact List.append_nil _
    | cons c rest => rw [List.takeWhile_cons_of_neg (by simp [hrest c rfl]), List.append_nil]
  have hdrop : (ds ++ rest).dropWhile Char.isDigit = rest := by
    rw [List.dropWhile_append_of_pos hall]
    cases rest with
    | nil => rfl
    | cons c rest => exact List.dropWhile_cons_of_neg (by simp [hrest c rfl])
  rw [digits, htake, hdrop]
  · exact fun hnil _ => hne (htake.symm.trans hnil)
  · exact fun _ _ hnil _ => hne (htake.symm.trans hnil)

theorem integerDigits_toDigits (early : Failure) (n : Nat) {rest : List Char}
    (hrest : ∀ c, rest.head? = some c → c.isDigit = false) :
    integerDigits early (Nat.toDigits 10 n ++ rest) = .ok (Nat.toDigits 10 n, rest) := by
  have hall : ∀ c ∈ Nat.toDigits 10 n, c.isDigit = true := fun c hc =>
    Nat.isDigit_of_mem_toDigits (by decide) (by decide) hc
  rw [integerDigits, digits_append early Nat.toDigits_ne_nil hall hrest]
  by_cases hn : n = 0
  · subst hn
    rfl
  · have hhead := head?_toDigits hn
    simp only [bind, Except.bind]
    split
    case h_1 hzero => exact absurd (congrArg List.head? hzero) hhead
    case h_2 => rfl

theorem fractionDigits?_of_ends (early : Failure) {rest : List Char} (h : Ends rest) :
    fractionDigits? early rest = .ok (none, rest) := by
  rcases h.eq with rfl | ⟨s, rfl⟩ | ⟨s, rfl⟩ | ⟨s, rfl⟩ <;> rfl

theorem exponent?_of_ends (early : Failure) {rest : List Char} (h : Ends rest) :
    exponent? early rest = .ok (none, rest) := by
  rcases h.eq with rfl | ⟨s, rfl⟩ | ⟨s, rfl⟩ | ⟨s, rfl⟩ <;> rfl

theorem unsigned_toDigits {n : Nat} (hn : n < wordBound) {rest : List Char} (h : Ends rest) :
    unsigned (Nat.toDigits 10 n ++ rest) = .ok (some n, rest) := by
  rw [unsigned, integerDigits_toDigits _ n h.not_digit]
  simp [bind, Except.bind, fractionDigits?_of_ends _ h, exponent?_of_ends _ h,
    Decimal.foldl_pushInteger hn]

theorem isSpace_of_startsNumber {c : Char} (hc : startsNumber c = true) : isSpace c = false := by
  rw [← Bool.not_eq_true]
  intro hspace
  simp only [isSpace, Bool.or_eq_true, beq_iff_eq] at hspace
  rcases hspace with ((rfl | rfl) | rfl) | rfl <;> cases hc

theorem reads_word (n : UInt64) : Reads word (Nat.toDigits 10 n.toNat) n := by
  intro rest h
  have hunsigned := unsigned_toDigits n.toNat_lt h
  cases hdigits : Nat.toDigits 10 n.toNat with
  | nil => exact absurd hdigits Nat.toDigits_ne_nil
  | cons d ds =>
      have hd : d.isDigit = true :=
        @Nat.isDigit_of_mem_toDigits 10 n.toNat d (by decide) (by decide) (by rw [hdigits]; simp)
      have hstarts : startsNumber d = true := by rw [startsNumber, hd, Bool.or_true]
      have hnumber : number (d :: (ds ++ rest)) = .ok (some n.toNat, rest) := by
        rw [number]
        · rwa [hdigits] at hunsigned
        · rintro s ⟨⟩
          cases hd
      rw [word, List.cons_append, skipSpace_cons (isSpace_of_startsNumber hstarts)]
      simp [hstarts, hnumber, bind, Except.bind]

structure Member where
  key : String
  text : List Char

def Member.chars (m : Member) : List Char := quoted m.key.toList ++ ':' :: m.text

def object (ms : List Member) : List Char :=
  '\x7b' :: [','].intercalate (ms.map Member.chars) ++ ['\x7d']

/-- The members, one after the other, take a record that is being read from the first state to the
second. -/
inductive Fills (fields : List (RecordField σ)) : σ → List Member → σ → Prop
  | nil (d : σ) : Fills fields d [] d
  | cons {d d' d'' : σ} {m : Member} {ms : List Member} (hread : Reads (member fields d) m.chars d')
      (hrest : Fills fields d' ms d'') : Fills fields d (m :: ms) d''

variable {fields : List (RecordField σ)} {d d' : σ} {ms : List Member}

theorem string_chars (m : Member) (rest : List Char) :
    string (m.chars ++ rest) = .ok (m.key, ':' :: (m.text ++ rest)) := by
  rw [Member.chars, List.append_assoc, string_quoted, List.cons_append]

theorem colon_cons (s : List Char) : colon (':' :: s) = .ok s := rfl

theorem Fills.of {key : String} {text : List Char} {r : Reader β} {get : σ → Option β}
    {put : σ → β → σ} {b : β}
    (hfield : (fields.find? fun f => f.key == key) = some (.of key r get put)) (hget : get d = none)
    (hread : Reads r text b) (hrest : Fills fields (put d b) ms d') :
    Fills fields d (⟨key, text⟩ :: ms) d' := by
  refine .cons ?_ hrest
  intro rest h
  have hset : (RecordField.of key r get put).isSet d = false := by simp [RecordField.of, hget]
  have hput : (RecordField.of key r get put).read d (text ++ rest) = .ok (put d b, rest) := by
    simp [RecordField.of, hread rest h, Except.map]
  simp [member, string_chars, hfield, hset, bind, Except.bind, colon_cons, hput]

theorem Fills.unknown {m : Member} (hfield : (fields.find? fun f => f.key == m.key) = none)
    (hskip : ∀ rest, Ends rest → skipValue (m.text ++ rest) = .ok rest)
    (hrest : Fills fields d ms d') : Fills fields d (m :: ms) d' := by
  refine .cons ?_ hrest
  intro rest h
  simp [member, string_chars, hfield, bind, Except.bind, colon_cons, hskip rest h]

theorem nextKey_chars (m : Member) (rest : List Char) :
    nextKey (m.chars ++ rest) = .ok (m.chars ++ rest) := by
  rw [Member.chars, List.append_assoc, quoted_append]
  rfl

theorem members_further (h : Fills fields d ms d') {fuel : Nat} (hfuel : ms.length < fuel)
    (rest : List Char) :
    members fields fuel false d (further (ms.map Member.chars) ++ '\x7d' :: rest) =
      .ok (d', rest) := by
  induction h generalizing fuel with
  | nil d =>
      obtain ⟨fuel, rfl⟩ := Nat.exists_eq_succ_of_ne_zero (Nat.ne_of_gt hfuel)
      rfl
  | @cons d d' d'' m ms hread hrest ih =>
      obtain ⟨fuel, rfl⟩ := Nat.exists_eq_succ_of_ne_zero (Nat.ne_of_gt (Nat.zero_lt_of_lt hfuel))
      have hmember := hread _ (ends_further (ms.map Member.chars) (.inr rfl) rest)
      rw [List.map_cons, further_cons, List.cons_append, List.append_assoc, members,
        skipSpace_cons rfl]
      simp [nextKey_chars, bind, Except.bind, hmember, ih (Nat.lt_of_succ_lt_succ hfuel)]

theorem members_first (h : Fills fields d ms d') {fuel : Nat} (hfuel : ms.length < fuel)
    (rest : List Char) : members fields fuel true d
      ([','].intercalate (ms.map Member.chars) ++ '\x7d' :: rest) = .ok (d', rest) := by
  obtain ⟨fuel, rfl⟩ := Nat.exists_eq_succ_of_ne_zero (Nat.ne_of_gt (Nat.zero_lt_of_lt hfuel))
  cases h with
  | nil => rfl
  | @cons _ d' _ m ms hread hrest =>
      have hmember := hread _ (ends_further (ms.map Member.chars) (.inr rfl) rest)
      have hkey := nextKey_chars m (further (ms.map Member.chars) ++ '\x7d' :: rest)
      obtain ⟨tail, htail⟩ : ∃ tail,
          m.chars ++ (further (ms.map Member.chars) ++ '\x7d' :: rest) = '\x22' :: tail := by
        rw [Member.chars, List.append_assoc, quoted_append]
        exact ⟨_, rfl⟩
      -- the reader looks at the first character before it reads a key
      rw [List.map_cons, intercalate_further, List.append_assoc, members]
      rw [htail] at hmember hkey ⊢
      rw [skipSpace_cons rfl]
      simp [hkey, bind, Except.bind, hmember, members_further hrest (Nat.lt_of_succ_lt_succ hfuel)]

theorem length_le_intercalate (ms : List Member) :
    ms.length ≤ ([','].intercalate (ms.map Member.chars)).length := by
  have hfurther (ts : List (List Char)) : ts.length ≤ (further ts).length := by
    induction ts with
    | nil => exact Nat.le_refl _
    | cons t ts ih =>
        rw [further_cons, List.length_cons, List.length_cons, List.length_append]
        omega
  cases ms with
  | nil => exact Nat.le_refl _
  | cons m ms =>
      have hms := hfurther (ms.map Member.chars)
      rw [List.length_map] at hms
      rw [List.map_cons, intercalate_further, Member.chars, quoted]
      simp only [List.length_append, List.length_cons]
      omega

/-- A record that is written as an object, its fields in any order, is read back. -/
theorem reads_object {empty : σ} {finish : σ → Option α} {a : α} (h : Fills fields empty ms d)
    (ha : finish d = some a) : Reads (record fields empty finish) (object ms) a := by
  intro rest _
  have htext : object ms ++ rest =
      '\x7b' :: ([','].intercalate (ms.map Member.chars) ++ '\x7d' :: rest) := by
    simp [object]
  have hlength := length_le_intercalate ms
  -- the fuel is the length of the text, and a member takes at least one character
  have hfuel : ms.length <
      ([','].intercalate (ms.map Member.chars) ++ '\x7d' :: rest).length + 1 := by
    rw [List.length_append]
    omega
  rw [record, htext, skipSpace_cons rfl]
  simp [members_first h hfuel rest, bind, Except.bind, ha, -List.length_append]

theorem reads_null (r : Reader α) : Reads (nullable r) ['n', 'u', 'l', 'l'] none :=
  fun _ _ => rfl

theorem reads_nullable_object {r : Reader α} {a : α} (h : Reads r (object ms) a) :
    Reads (nullable r) (object ms) (some a) := by
  intro rest hrest
  have hread := h rest hrest
  obtain ⟨tail, htail⟩ : ∃ tail, object ms ++ rest = '\x7b' :: tail := ⟨_, rfl⟩
  rw [htail] at hread ⊢
  rw [nullable, skipSpace_cons rfl]
  simp [hread, Except.map]

end WidgetMarkup.Json
