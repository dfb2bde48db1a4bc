import WidgetMarkup.Proofs.WrittenRecords

namespace WidgetMarkup.Json

variable {c : Char} {rest : List Char}

theorem exponent?_digit (early : Failure) (hc : c.isDigit = true) (s : List Char) :
    exponent? early ('e' :: c :: s) =
      (digits early (c :: s)).map fun (ds, s) => (some (false, ds), s) := by
  rw [exponent?]
  · rfl
  · rintro s ⟨⟩
    cases hc
  · rintro s ⟨⟩
    cases hc

theorem fractionDigits?_none (early : Failure) (h : rest.head? ≠ some '.') :
    fractionDigits? early rest = .ok (none, rest) := by
  rw [fractionDigits?]
  rintro s rfl
  exact h rfl

theorem opens?_of_startsNumber (hc : startsNumber c = true) (s : List Char) :
    opens? (c :: s) = none := by
  rw [opens?]
  · rintro s ⟨⟩
    cases hc
  · rintro s ⟨⟩
    cases hc

theorem skipScalar_of_startsNumber (hc : startsNumber c = true) (s : List Char) :
    skipScalar (c :: s) = skipNumber (c :: s) := by
  have hne (d : Char) (hd : startsNumber d = false) : c ≠ d := by
    rintro rfl
    rw [hc] at hd
    cases hd
  rw [skipScalar, if_neg (hne 'n' rfl), if_neg (hne 't' rfl), if_neg (hne 'f' rfl),
    if_neg (hne '\x22' rfl), if_pos hc]

structure Digits where
  chars : List Char
  nonempty : chars ≠ []
  digits : ∀ c ∈ chars, c.isDigit = true

theorem digits_chars (early : Failure) (ds : Digits)
    (hrest : ∀ c, rest.head? = some c → c.isDigit = false) :
    digits early (ds.chars ++ rest) = .ok (ds.chars, rest) :=
  digits_append early ds.nonempty ds.digits hrest

structure Power where
  negative : Bool
  digits : Digits

def Power.chars (p : Power) : List Char :=
  'e' :: ((if p.negative then ['-'] else []) ++ p.digits.chars)

theorem exponent?_chars (early : Failure) (p : Power) (h : Ends rest) :
    exponent? early (p.chars ++ rest) = .ok (some (p.negative, p.digits.chars), rest) := by
  have hdigits := digits_chars early p.digits h.not_digit
  rw [Power.chars]
  cases p.negative with
  | true => simp [exponent?, hdigits, Except.map]
  | false =>
      obtain ⟨d, s, hds⟩ := List.exists_cons_of_ne_nil p.digits.nonempty
      have hd : d.isDigit = true := p.digits.digits d (by simp [hds])
      rw [hds, List.cons_append] at hdigits
      simp [hds, exponent?_digit early hd, hdigits, Except.map]

/-- A number as it is written. -/
structure WrittenNumber where
  negative : Bool := false
  whole : Nat
  fraction : Option Digits := none
  power : Option Power := none

namespace WrittenNumber

def powerChars (n : WrittenNumber) : List Char := n.power.elim [] Power.chars

def fractionChars (n : WrittenNumber) : List Char := n.fraction.elim [] fun ds => '.' :: ds.chars

def unsignedChars (n : WrittenNumber) : List Char :=
  Nat.toDigits 10 n.whole ++ (n.fractionChars ++ n.powerChars)

def chars (n : WrittenNumber) : List Char := (if n.negative then ['-'] else []) ++ n.unsignedChars

variable (n : WrittenNumber)

theorem exponent?_powerChars (early : Failure) (h : Ends rest) :
    ∃ p, exponent? early (n.powerChars ++ rest) = .ok (p, rest) := by
  rw [powerChars]
  cases n.power with
  | none => exact ⟨none, exponent?_of_ends early h⟩
  | some p => exact ⟨_, exponent?_chars early p h⟩

theorem head?_powerChars (h : Ends rest) :
    ∀ c, (n.powerChars ++ rest).head? = some c → c.isDigit = false ∧ c ≠ '.' := by
  intro c hc
  rw [powerChars] at hc
  cases hpower : n.power with
  | none =>
      rw [hpower] at hc
      rcases h c hc with rfl | rfl | rfl <;> decide
  | some p =>
      rw [hpower] at hc
      cases hc
      decide

theorem fractionDigits?_fractionChars (early : Failure) (h : Ends rest) :
    ∃ f, fractionDigits? early (n.fractionChars ++ (n.powerChars ++ rest)) =
      .ok (f, n.powerChars ++ rest) := by
  have hhead := n.head?_powerChars h
  rw [fractionChars]
  cases n.fraction with
  | none => exact ⟨none, fractionDigits?_none early fun hpoint => (hhead _ hpoint).2 rfl⟩
  | some ds =>
      have hdigits := digits_chars early ds fun c hc => (hhead c hc).1
      exact ⟨some ds.chars, by simp [fractionDigits?, hdigits, Except.map]⟩

theorem head?_fractionChars (h : Ends rest) :
    ∀ c, (n.fractionChars ++ (n.powerChars ++ rest)).head? = some c → c.isDigit = false := by
  intro c hc
  rw [fractionChars] at hc
  cases hfraction : n.fraction with
  | none =>
      rw [hfraction] at hc
      exact (n.head?_powerChars h c hc).1
  | some ds =>
      rw [hfraction] at hc
      cases hc
      rfl

theorem unsignedChars_eq_cons : ∃ d s, n.unsignedChars = d :: s ∧ d.isDigit = true := by
  obtain ⟨d, ds, hds⟩ := List.exists_cons_of_ne_nil (@Nat.toDigits_ne_nil n.whole 10)
  have hd : d.isDigit = true :=
    @Nat.isDigit_of_mem_toDigits 10 n.whole d (by decide) (by decide) (by rw [hds]; simp)
  exact ⟨d, _, by rw [unsignedChars, hds, List.cons_append], hd⟩

theorem skipNumber_chars (h : Ends rest) : skipNumber (n.chars ++ rest) = .ok rest := by
  obtain ⟨f, hfraction⟩ := n.fractionDigits?_fractionChars .illFormed h
  obtain ⟨p, hpower⟩ := n.exponent?_powerChars .illFormed h
  have hwhole : integerDigits .illFormed (n.unsignedChars ++ rest) =
      .ok (Nat.toDigits 10 n.whole, n.fractionChars ++ (n.powerChars ++ rest)) := by
    rw [unsignedChars, List.append_assoc, List.append_assoc]
    exact integerDigits_toDigits .illFormed n.whole (n.head?_fractionChars h)
  rw [chars]
  cases n.negative with
  | true => simp [skipNumber, hwhole, hfraction, hpower, bind, Except.bind]
  | false =>
      obtain ⟨d, s, hs, hd⟩ := n.unsignedChars_eq_cons
      rw [if_neg Bool.false_ne_true, List.nil_append, skipNumber]
      · simp [hwhole, hfraction, hpower, bind, Except.bind]
      · rintro s' he
        rw [hs] at he
        cases he
        cases hd

theorem chars_eq_cons : ∃ d s, n.chars = d :: s ∧ startsNumber d = true := by
  rw [chars]
  cases n.negative with
  | true => exact ⟨'-', _, rfl, rfl⟩
  | false =>
      obtain ⟨d, s, hs, hd⟩ := n.unsignedChars_eq_cons
      refine ⟨d, s, ?_, ?_⟩
      · rw [if_neg Bool.false_ne_true, List.nil_append, hs]
      · rw [startsNumber, hd, Bool.or_true]

end WrittenNumber

/-- The search for the end of a value gets through the text, whatever brackets are open, in no more
steps than the text has characters. -/
def Skipped (t : List Char) : Prop := ∃ n ≤ t.length, ∀ fuel bs rest, Ends rest →
  skipOpen (n + fuel) false bs (t ++ rest) = skipOpen fuel true bs rest

def SkippedWithin (b : Bracket) (t : List Char) : Prop :=
  ∃ n ≤ t.length, ∀ fuel bs rest, Ends rest →
    ((skipEntry b (t ++ rest)).bind fun s => skipOpen (n + fuel) false (b :: bs) s) =
      skipOpen fuel true (b :: bs) rest

theorem skipped_scalar {s : List Char} (hspace : isSpace c = false)
    (hopens : ∀ s, opens? (c :: s) = none)
    (hskip : ∀ rest, Ends rest → skipScalar (c :: (s ++ rest)) = .ok rest) : Skipped (c :: s) := by
  refine ⟨1, by simp, ?_⟩
  intro fuel bs rest h
  rw [Nat.add_comm, List.cons_append, skipOpen, skipSpace_cons hspace, hopens]
  simp [hskip rest h, bind, Except.bind]

def Bracket.opening : Bracket → Char
  | list => '['
  | object => '\x7b'

def group (b : Bracket) (ts : List (List Char)) : List Char :=
  b.opening :: [','].intercalate ts ++ [b.close]

variable {b : Bracket} {t : List Char} {ts : List (List Char)}

theorem isSpace_close (b : Bracket) : isSpace b.close = false := by cases b <;> rfl

theorem ends_further_close (b : Bracket) (ts : List (List Char)) (rest : List Char) :
    Ends (further ts ++ b.close :: rest) :=
  ends_further ts (by cases b <;> simp [Bracket.close]) rest

theorem opens?_opening (b : Bracket) (s : List Char) :
    opens? (skipSpace (b.opening :: s)) = some (b, s) := by
  cases b <;> rfl

theorem skipped_further (h : ∀ t ∈ ts, SkippedWithin b t) : ∃ n ≤ (further ts).length + 1,
    ∀ fuel bs rest, skipOpen (n + fuel) true (b :: bs) (further ts ++ b.close :: rest) =
      skipOpen fuel true bs rest := by
  induction ts with
  | nil =>
      refine ⟨1, by simp, ?_⟩
      intro fuel bs rest
      rw [Nat.add_comm, further, List.flatMap_nil, List.nil_append, skipOpen,
        skipSpace_cons (isSpace_close b)]
      simp
  | cons t ts ih =>
      rw [List.forall_mem_cons] at h
      obtain ⟨n, hn, hentry⟩ := h.1
      obtain ⟨m, hm, hfurther⟩ := ih h.2
      refine ⟨n + m + 1, ?_, ?_⟩
      · rw [further_cons, List.length_cons, List.length_append]
        omega
      · intro fuel bs rest
        have hcomma : ',' ≠ b.close := by cases b <;> decide
        have hstep := hentry (m + fuel) bs _ (ends_further_close b ts rest)
        have hfuel : n + m + 1 + fuel = n + (m + fuel) + 1 := by omega
        rw [hfurther] at hstep
        rw [hfuel, further_cons, List.cons_append, List.append_assoc, skipOpen, skipSpace_cons rfl]
        simpa [hcomma, bind] using hstep

/-- The first character neither is left out nor closes anything. -/
def Starts (t : List Char) : Prop :=
  ∃ c s, t = c :: s ∧ isSpace c = false ∧ ∀ b : Bracket, c ≠ b.close

theorem skipped_group (hstarts : ∀ t ∈ ts, Starts t) (h : ∀ t ∈ ts, SkippedWithin b t) :
    Skipped (group b ts) := by
  cases ts with
  | nil =>
      refine ⟨1, by simp [group], ?_⟩
      intro fuel bs rest _
      have htext : group b [] ++ rest = b.opening :: b.close :: rest := rfl
      rw [Nat.add_comm, htext, skipOpen, opens?_opening]
      dsimp only
      rw [skipSpace_cons (isSpace_close b)]
      simp
  | cons t ts =>
      rw [List.forall_mem_cons] at h hstarts
      obtain ⟨n, hn, hentry⟩ := h.1
      obtain ⟨m, hm, hfurther⟩ := skipped_further h.2
      obtain ⟨c, s, rfl, hspace, hclose⟩ := hstarts.1
      refine ⟨n + m + 1, ?_, ?_⟩
      · rw [group, intercalate_further]
        simp only [List.length_cons, List.length_append] at hn ⊢
        omega
      · intro fuel bs rest _
        have htext : group b ((c :: s) :: ts) ++ rest =
            b.opening :: (c :: s ++ (further ts ++ b.close :: rest)) := by
          simp [group, intercalate_further]
        have hstep := hentry (m + fuel) bs _ (ends_further_close b ts rest)
        have hfuel : n + m + 1 + fuel = n + (m + fuel) + 1 := by omega
        rw [hfurther] at hstep
        rw [hfuel, htext, skipOpen, opens?_opening]
        dsimp only
        rw [List.cons_append, skipSpace_cons hspace]
        simpa [hclose, bind] using hstep

/-- The text of a value, however deep. -/
inductive IsValue : List Char → Prop
  | null : IsValue "null".toList
  | bool (b : Bool) : IsValue (toString b).toList
  | string (s : List Char) : IsValue (quoted s)
  | number (n : WrittenNumber) : IsValue n.chars
  | list {ts : List (List Char)} (h : ∀ t ∈ ts, IsValue t) : IsValue (group .list ts)
  | object {ms : List Member} (h : ∀ m ∈ ms, IsValue m.text) : IsValue (object ms)

theorem starts_quoted (s t : List Char) : Starts (quoted s ++ t) :=
  ⟨'\x22', _, quoted_append s t, rfl, fun b => by cases b <;> decide⟩

theorem starts_of_isValue (h : IsValue t) : Starts t := by
  cases h with
  | null => exact ⟨'n', _, rfl, rfl, fun b => by cases b <;> decide⟩
  | bool b =>
      cases b with
      | false => exact ⟨'f', _, rfl, rfl, fun b => by cases b <;> decide⟩
      | true => exact ⟨'t', _, rfl, rfl, fun b => by cases b <;> decide⟩
  | string s => simpa using starts_quoted s []
  | number n =>
      obtain ⟨c, s, hchars, hc⟩ := n.chars_eq_cons
      refine ⟨c, s, hchars, isSpace_of_startsNumber hc, ?_⟩
      rintro b rfl
      cases b <;> cases hc
  | list hts => exact ⟨'[', _, rfl, rfl, fun b => by cases b <;> decide⟩
  | object hms => exact ⟨'\x7b', _, rfl, rfl, fun b => by cases b <;> decide⟩

theorem skipScalar_quoted (s rest : List Char) :
    skipScalar ('\x22' :: (s.flatMap escaped ++ '\x22' :: rest)) = .ok rest := by
  obtain ⟨cs, hcs⟩ := stringBody_skips s rest
  simp [skipScalar, hcs, Except.map]

theorem skipKey_chars (m : Member) (rest : List Char) :
    skipKey (m.chars ++ rest) = .ok (m.text ++ rest) := by
  obtain ⟨cs, hcs⟩ := stringBody_skips m.key.toList (':' :: (m.text ++ rest))
  rw [Member.chars, List.append_assoc, quoted_append, skipKey, skipSpace_cons rfl]
  simp [hcs, bind, Except.bind, colon_cons]

theorem skippedWithin_list (h : Skipped t) : SkippedWithin .list t := by
  obtain ⟨n, hn, hskipped⟩ := h
  exact ⟨n, hn, fun fuel bs rest => hskipped fuel (.list :: bs) rest⟩

theorem skippedWithin_object {m : Member} (h : Skipped m.text) : SkippedWithin .object m.chars := by
  obtain ⟨n, hn, hskipped⟩ := h
  refine ⟨n, ?_, ?_⟩
  · rw [Member.chars, List.length_append, List.length_cons]
    omega
  · intro fuel bs rest hends
    rw [skipEntry, skipKey_chars]
    exact hskipped fuel (.object :: bs) rest hends

theorem skipped_of_isValue (h : IsValue t) : Skipped t := by
  induction h with
  | null => exact skipped_scalar rfl (fun _ => rfl) fun _ _ => rfl
  | bool b => cases b <;> exact skipped_scalar rfl (fun _ => rfl) fun _ _ => rfl
  | string s =>
      rw [quoted, List.cons_append]
      apply skipped_scalar rfl fun _ => rfl
      intro rest _
      rw [List.append_assoc]
      exact skipScalar_quoted s rest
  | number n =>
      obtain ⟨c, s, hchars, hc⟩ := n.chars_eq_cons
      rw [hchars]
      apply skipped_scalar (isSpace_of_startsNumber hc) (opens?_of_startsNumber hc)
      intro rest h
      have hskip := n.skipNumber_chars h
      rwa [hchars, List.cons_append, ← skipScalar_of_startsNumber hc] at hskip
  | list hts ih =>
      apply skipped_group
      · exact fun t ht => starts_of_isValue (hts t ht)
      · exact fun t ht => skippedWithin_list (ih t ht)
  | @object ms hms ih =>
      have hstarts : ∀ t ∈ ms.map Member.chars, Starts t := by
        intro t ht
        obtain ⟨m, -, rfl⟩ := List.mem_map.1 ht
        exact starts_quoted m.key.toList _
      have hskipped : ∀ t ∈ ms.map Member.chars, SkippedWithin .object t := by
        intro t ht
        obtain ⟨m, hm, rfl⟩ := List.mem_map.1 ht
        exact skippedWithin_object (ih m hm)
      exact skipped_group hstarts hskipped

/-- Passing over a value leaves what stands behind it. -/
theorem skipValue_of_isValue (h : IsValue t) (hrest : Ends rest) :
    skipValue (t ++ rest) = .ok rest := by
  obtain ⟨n, hn, hskipped⟩ := skipped_of_isValue h
  have hfuel : 2 * (t ++ rest).length + 2 = n + (2 * (t ++ rest).length + 1 - n + 1) := by
    rw [List.length_append]
    omega
  rw [skipValue, hfuel, hskipped _ _ _ hrest, skipOpen]

end WidgetMarkup.Json
