/-
# The deserializer stays in bounds

Whatever stands in flash, reading it is defined: the reader never passes the zero behind
the text, every loop ends, and no number leads past a table (`Deserializer.safely_parse`).

What it returns is accounted for.  `CollectionData::memoryUsage` counts a slot for every
element and a string with its zero for every key and every value that is one; that is
exactly what reading has taken from the pool (`Takes`), since a string that has been
completed gives back all that it has not used.  So a document never needs more than
`JSON_BUFF_SIZE`, and it is never nested deeper than the limit.
-/

import Remora.Json.Deserializer

namespace Remora
namespace Json

open Basis Program

namespace VariantData

mutual

/-- `VariantData::memoryUsage` -/
def memoryUsage : VariantData → ℕ
  | .ownedString s => s.length + 1
  | .array slots => elementUsage slots
  | .object slots => memberUsage slots
  | _ => 0

/-- `CollectionData::memoryUsage` of an array. -/
def elementUsage : List VariantData → ℕ
  | [] => 0
  | v :: slots => VARIANT_SLOT + v.memoryUsage + elementUsage slots

/-- `CollectionData::memoryUsage` of an object. -/
def memberUsage : List (List Byte × VariantData) → ℕ
  | [] => 0
  | (key, v) :: slots => VARIANT_SLOT + v.memoryUsage + (key.length + 1) + memberUsage slots

end

mutual

/-- `VariantData::nesting` -/
def nesting : VariantData → ℕ
  | .array slots => maxElementNesting slots + 1
  | .object slots => maxMemberNesting slots + 1
  | _ => 0

/-- `maxChildNesting` of an array. -/
def maxElementNesting : List VariantData → ℕ
  | [] => 0
  | v :: slots => max v.nesting (maxElementNesting slots)

/-- `maxChildNesting` of an object. -/
def maxMemberNesting : List (List Byte × VariantData) → ℕ
  | [] => 0
  | (_, v) :: slots => max v.nesting (maxMemberNesting slots)

end

theorem elementUsage_append (slots slots' : List VariantData) :
    elementUsage (slots ++ slots') = elementUsage slots + elementUsage slots' := by
  induction slots with
  | nil => simp [elementUsage]
  | cons v slots ih => simp only [List.cons_append, elementUsage, ih]; omega

theorem memberUsage_append (slots slots' : List (List Byte × VariantData)) :
    memberUsage (slots ++ slots') = memberUsage slots + memberUsage slots' := by
  induction slots with
  | nil => simp [memberUsage]
  | cons m slots ih => simp only [List.cons_append, memberUsage, ih]; omega

theorem maxElementNesting_append (slots slots' : List VariantData) :
    maxElementNesting (slots ++ slots') =
      max (maxElementNesting slots) (maxElementNesting slots') := by
  induction slots with
  | nil => simp [maxElementNesting]
  | cons v slots ih => simp only [List.cons_append, maxElementNesting, ih]; omega

theorem maxMemberNesting_append (slots slots' : List (List Byte × VariantData)) :
    maxMemberNesting (slots ++ slots') =
      max (maxMemberNesting slots) (maxMemberNesting slots') := by
  induction slots with
  | nil => simp [maxMemberNesting]
  | cons m slots ih => simp only [List.cons_append, maxMemberNesting, ih]; omega

end VariantData

/-- The zero behind the text has not been read. -/
def Ended (input : List Byte) : Prop := ∃ text, input = text ++ [0]

/-- From one state of the pool to another, `n` bytes are taken. -/
structure Takes (p p' : MemoryPool) (n : ℕ) : Prop where
  left : p.left ≤ p'.left
  room : p'.left ≤ p'.right
  right : p'.right ≤ p.right
  size : p'.left + p.right = p.left + p'.right + n

namespace Takes

theorem refl {p : MemoryPool} (h : p.left ≤ p.right) : Takes p p 0 :=
  ⟨Nat.le_refl _, h, Nat.le_refl _, rfl⟩

theorem trans {p p' p'' : MemoryPool} {m n : ℕ} (h : Takes p p' m) (h' : Takes p' p'' n) :
    Takes p p'' (m + n) := by
  have := h.size
  have := h'.size
  exact ⟨Nat.le_trans h.left h'.left, h'.room, Nat.le_trans h'.right h.right, by omega⟩

end Takes

theorem Ended.tail {c : Byte} {input : List Byte} (h : Ended (c :: input)) (hc : c ≠ 0) :
    Ended input := by
  obtain ⟨text, htext⟩ := h
  cases text with
  | nil => exact absurd (List.cons.inj htext).1 hc
  | cons d text => exact ⟨text, (List.cons.inj htext).2⟩

namespace Deserializer

variable {s : Source}

/-- **A look at the next byte** is defined before the end. -/
theorem safely_current (h : Ended s.input) :
    Safely current s fun c t => t = s ∧ ∃ rest, s.input = c :: rest := by
  obtain ⟨text, htext⟩ := h
  have hhead : ∃ c rest, s.input = c :: rest := by
    rw [htext]
    cases text with
    | nil => exact ⟨0, [], rfl⟩
    | cons c text => exact ⟨c, text ++ [0], rfl⟩
  obtain ⟨c, rest, hinput⟩ := hhead
  have hcurrent : current s = (pure c : Deserializer Byte) s := by rw [current, hinput]
  rw [Safely, hcurrent]
  exact safely_pure ⟨rfl, rest, hinput⟩

theorem safely_move : Safely move s fun _ t => t = { s with input := s.input.tail } :=
  ⟨.ok ((), { s with input := s.input.tail }), rfl, fun _ _ h => by
    obtain ⟨-, rfl⟩ := Prod.mk.inj (Except.ok.inj h)
    rfl⟩

/-- What stands between two moments of reading: the end has not been passed, and the
pool is as it was. -/
structure Ahead (s t : Source) : Prop where
  ended : Ended t.input
  length : t.input.length ≤ s.input.length
  pool : t.pool = s.pool

theorem Ahead.trans {s t u : Source} (h : Ahead s t) (h' : Ahead t u) : Ahead s u :=
  ⟨h'.ended, Nat.le_trans h'.length h.length, h'.pool.trans h.pool⟩

/-- A byte that is not the end is passed. -/
theorem safely_move_of_ne {c : Byte} {rest : List Byte} (h : Ended s.input)
    (hinput : s.input = c :: rest) (hc : c ≠ 0) :
    Safely move s fun _ t => Ahead s t ∧ t.input.length < s.input.length := by
  refine safely_move.mono ?_
  rintro - t rfl
  have hlen : s.input.tail.length < s.input.length := by
    rw [hinput]
    exact Nat.lt_succ_self _
  refine ⟨⟨?_, Nat.le_of_lt hlen, rfl⟩, hlen⟩
  rw [hinput] at h ⊢
  exact h.tail hc

theorem safely_eat (h : Ended s.input) {charToSkip : Byte} (hne : charToSkip ≠ 0) :
    Safely (eat charToSkip) s fun b t =>
      Ahead s t ∧ (b = true → t.input.length < s.input.length) := by
  rw [eat]
  refine safely_bind ((safely_current h).mono ?_)
  rintro c t ⟨rfl, rest, hinput⟩
  split_ifs with hc
  · exact safely_pure ⟨⟨h, Nat.le_refl _, rfl⟩, fun h => (by cases h)⟩
  · refine safely_bind ((safely_move_of_ne h hinput ?_).mono ?_)
    · rw [not_not.1 hc]
      exact hne
    · rintro - u ⟨hahead, hlen⟩
      exact safely_pure ⟨hahead, fun _ => hlen⟩

theorem safely_blockComment (h : Ended s.input) {rounds : ℕ} (hrounds : s.input.length < rounds)
    (wasStar : Bool) : Safely (blockComment rounds wasStar) s fun _ t => Ahead s t := by
  induction rounds generalizing s wasStar with
  | zero => exact absurd hrounds (Nat.not_lt_zero _)
  | succ rounds ih =>
      rw [blockComment]
      refine safely_bind ((safely_current h).mono ?_)
      rintro c t ⟨rfl, rest, hinput⟩
      split_ifs with hzero hclose
      · exact safely_throw _ _
      · exact (safely_move_of_ne h hinput hzero).mono fun _ _ h => h.1
      · refine safely_bind ((safely_move_of_ne h hinput hzero).mono ?_)
        rintro - u ⟨hahead, hlen⟩
        exact (ih hahead.ended (by omega) _).mono fun _ _ h => hahead.trans h

theorem safely_trailingComment {c : Byte} {rest : List Byte} (h : Ended s.input)
    (hinput : s.input = c :: rest) (hc : c ≠ 0) {rounds : ℕ} (hrounds : s.input.length < rounds) :
    Safely (trailingComment rounds) s fun _ t => Ahead s t ∧ t.input.length < s.input.length := by
  induction rounds generalizing s c rest with
  | zero => exact absurd hrounds (Nat.not_lt_zero _)
  | succ rounds ih =>
      rw [trailingComment]
      refine safely_bind ((safely_move_of_ne h hinput hc).mono ?_)
      rintro - t ⟨hahead, hlen⟩
      refine safely_bind ((safely_current hahead.ended).mono ?_)
      rintro d u ⟨rfl, rest', hinput'⟩
      split_ifs with hzero hend
      · exact safely_throw _ _
      · exact safely_pure ⟨hahead, hlen⟩
      · exact (ih hahead.ended hinput' hzero (by omega)).mono fun _ _ h' =>
          ⟨hahead.trans h'.1, Nat.lt_trans h'.2 hlen⟩

theorem safely_spacesLoop (h : Ended s.input) {rounds : ℕ} (hrounds : s.input.length < rounds) :
    Safely (spacesLoop rounds) s fun _ t => Ahead s t := by
  induction rounds generalizing s with
  | zero => exact absurd hrounds (Nat.not_lt_zero _)
  | succ rounds ih =>
      rw [spacesLoop]
      refine safely_bind ((safely_current h).mono ?_)
      rintro c t ⟨rfl, rest, hinput⟩
      split_ifs with hzero hspace hslash
      · exact safely_throw _ _
      · refine safely_bind ((safely_move_of_ne h hinput hzero).mono ?_)
        rintro - u ⟨hahead, hlen⟩
        exact (ih hahead.ended (by omega)).mono fun _ _ h => hahead.trans h
      · refine safely_bind ((safely_move_of_ne h hinput hzero).mono ?_)
        rintro - u ⟨hahead, hlen⟩
        refine safely_bind ((safely_current hahead.ended).mono ?_)
        rintro d v ⟨rfl, rest', hinput'⟩
        split_ifs with hstar hline
        · refine safely_bind ((safely_move_of_ne hahead.ended hinput' ?_).mono ?_)
          · rw [hstar]
            decide
          · rintro - w ⟨hahead', hlen'⟩
            refine safely_bind
              ((safely_blockComment hahead'.ended (Nat.lt_succ_self _) false).mono ?_)
            intro _ x hahead''
            have := hahead''.length
            exact (ih hahead''.ended (by omega)).mono fun _ _ h =>
              hahead.trans (hahead'.trans (hahead''.trans h))
        · refine safely_bind ((safely_trailingComment hahead.ended hinput' ?_
            (Nat.lt_succ_self _)).mono ?_)
          · rw [hline]
            decide
          · rintro - w ⟨hahead', hlen'⟩
            exact (ih hahead'.ended (by omega)).mono fun _ _ h => hahead.trans (hahead'.trans h)
        · exact safely_throw _ _
      · exact safely_pure ⟨h, Nat.le_refl _, rfl⟩

theorem safely_skipSpacesAndComments (h : Ended s.input) :
    Safely skipSpacesAndComments s fun _ t => Ahead s t :=
  safely_spacesLoop h (Nat.lt_succ_self _)

/-- What is in the slot of a builder fits in it. -/
def Fits (b : StringBuilder) : Prop := ∀ str, b.value = some str → str.length ≤ b.size

theorem size_append (b : StringBuilder) (c : Byte) : (b.append c).size = b.size := by
  rw [StringBuilder.append]
  cases b.value with
  | none => rfl
  | some str =>
      dsimp only
      split_ifs <;> rfl

theorem fits_append {b : StringBuilder} (h : Fits b) (c : Byte) : Fits (b.append c) := by
  intro str hstr
  rw [size_append]
  rw [StringBuilder.append] at hstr
  cases hvalue : b.value with
  | none =>
      rw [hvalue] at hstr
      dsimp only at hstr
      exact h str hstr
  | some str' =>
      rw [hvalue] at hstr
      dsimp only at hstr
      split_ifs at hstr with hfull
      obtain rfl := Option.some.inj hstr
      rw [List.length_append]
      exact Nat.lt_of_not_le hfull

/-- The pool while a string is being built: all that was free is in the slot. -/
structure Building (p : MemoryPool) (b : StringBuilder) (s : Source) : Prop where
  room : p.left ≤ p.right
  pool : s.pool = ⟨p.right, p.right⟩
  size : b.size = p.right - p.left
  fits : Fits b

theorem Building.append {p : MemoryPool} {b : StringBuilder} {t : Source} (h : Building p b s)
    (ht : t.pool = s.pool) (c : Byte) : Building p (b.append c) t :=
  ⟨h.room, ht.trans h.pool, (size_append b c).trans h.size, fits_append h.fits c⟩

theorem safely_startString (h : s.pool.left ≤ s.pool.right) :
    Safely startString s fun b t => t.input = s.input ∧ Building s.pool b t := by
  refine ⟨.ok (⟨some [], s.pool.right - s.pool.left⟩, { s with
    pool := { s.pool with left := s.pool.right } }), rfl, fun b t heq => ?_⟩
  obtain ⟨rfl, rfl⟩ := Prod.mk.inj (Except.ok.inj heq)
  refine ⟨rfl, h, rfl, rfl, fun str hstr => ?_⟩
  obtain rfl := Option.some.inj hstr
  exact Nat.zero_le _

/-- **A string that is completed** gives back what it has not used. -/
theorem safely_complete {p : MemoryPool} {b : StringBuilder} (h : Building p b s) :
    Safely (complete b) s fun str t => t.input = s.input ∧ Takes p t.pool (str.length + 1) := by
  rw [complete]
  cases hvalue : (b.append 0).value with
  | none => exact safely_throw _ _
  | some str =>
      have hfits := fits_append h.fits 0 str hvalue
      rw [size_append] at hfits
      have hne : str ≠ [] := by
        rintro rfl
        rw [StringBuilder.append] at hvalue
        cases hb : b.value with
        | none =>
            rw [hb] at hvalue
            dsimp only at hvalue
            rw [hb] at hvalue
            cases hvalue
        | some str' =>
            rw [hb] at hvalue
            dsimp only at hvalue
            split_ifs at hvalue
            exact absurd (Option.some.inj hvalue) (by simp)
      have hpos := List.length_pos_iff.2 hne
      refine ⟨.ok (str.dropLast, { s with
        pool := { s.pool with left := s.pool.left - (b.size - str.length) } }), rfl,
        fun str' t heq => ?_⟩
      obtain ⟨rfl, rfl⟩ := Prod.mk.inj (Except.ok.inj heq)
      have hroom := h.room
      have hsize := h.size
      rw [h.pool]
      refine ⟨rfl, ?_, ?_, Nat.le_refl _, ?_⟩
      · dsimp only
        omega
      · exact Nat.sub_le _ _
      · rw [List.length_dropLast]
        dsimp only
        omega

theorem safely_quotedLoop (h : Ended s.input) {rounds : ℕ} (hrounds : s.input.length < rounds)
    {p : MemoryPool} {b : StringBuilder} (hb : Building p b s) {stopChar : Byte}
    (hstop : stopChar ≠ 0) :
    Safely (quotedLoop stopChar rounds b) s fun b' t =>
      Ahead s t ∧ t.input.length < s.input.length ∧ Building p b' t := by
  induction rounds generalizing s b with
  | zero => exact absurd hrounds (Nat.not_lt_zero _)
  | succ rounds ih =>
      rw [quotedLoop]
      refine safely_bind ((safely_current h).mono ?_)
      rintro c t ⟨rfl, rest, hinput⟩
      by_cases hzero : c = 0
      · -- the zero is passed, but nothing is read behind it
        have hne : ¬c = stopChar := fun h => hstop (h.symm.trans hzero)
        refine safely_bind (safely_move.mono ?_)
        rintro - u rfl
        rw [if_neg hne, if_pos hzero]
        exact safely_throw _ _
      · refine safely_bind ((safely_move_of_ne h hinput hzero).mono ?_)
        rintro - u ⟨hahead, hlen⟩
        have hb' : ∀ c, Building p (b.append c) u := fun c => hb.append hahead.pool c
        split_ifs with hstop' hescape
        · exact safely_pure ⟨hahead, hlen, hb.room, hahead.pool.trans hb.pool, hb.size, hb.fits⟩
        · refine safely_bind ((safely_current hahead.ended).mono ?_)
          rintro d v ⟨rfl, rest', hinput'⟩
          split_ifs with hzero' hu
          · exact safely_throw _ _
          · exact safely_throw _ _
          · dsimp only
            split_ifs with hunescape
            · exact safely_throw _ _
            · refine safely_bind ((safely_move_of_ne hahead.ended hinput' hzero').mono ?_)
              rintro - w ⟨hahead', hlen'⟩
              refine (ih hahead'.ended (by omega)
                (hb.append (hahead'.pool.trans hahead.pool) _)).mono ?_
              rintro b' x ⟨hahead'', hlen'', hb''⟩
              exact ⟨hahead.trans (hahead'.trans hahead''), by omega, hb''⟩
        · refine (ih hahead.ended (by omega) (hb' c)).mono ?_
          rintro b' v ⟨hahead', hlen', hb''⟩
          exact ⟨hahead.trans hahead', by omega, hb''⟩

/-- A string has been read: so much is taken from the pool. -/
structure Read (s t : Source) (n : ℕ) : Prop where
  ended : Ended t.input
  length : t.input.length < s.input.length
  takes : Takes s.pool t.pool n

theorem safely_parseQuotedString (h : Ended s.input) (hroom : s.pool.left ≤ s.pool.right)
    {c : Byte} {rest : List Byte} (hinput : s.input = c :: rest) (hc : isQuote c = true) :
    Safely parseQuotedString s fun str t => Read s t (str.length + 1) := by
  have hne : c ≠ 0 := by
    rintro rfl
    exact absurd hc (by decide)
  rw [parseQuotedString]
  refine safely_bind ((safely_startString hroom).mono ?_)
  rintro b t ⟨hinput', hb⟩
  have hended : Ended t.input := hinput'.symm ▸ h
  refine safely_bind ((safely_current hended).mono ?_)
  rintro d u ⟨rfl, rest', hrest'⟩
  obtain ⟨rfl, -⟩ := List.cons.inj (hrest'.symm.trans (hinput'.trans hinput))
  refine safely_bind ((safely_move_of_ne hended hrest' hne).mono ?_)
  rintro - v ⟨hahead, hlen⟩
  refine safely_bind ((safely_quotedLoop hahead.ended (Nat.lt_succ_self _)
    ⟨hb.room, hahead.pool.trans hb.pool, hb.size, hb.fits⟩ hne).mono ?_)
  rintro b' w ⟨hahead', hlen', hb'⟩
  refine (safely_complete hb').mono ?_
  rintro str x ⟨hinput'', htakes⟩
  refine ⟨hinput''.symm ▸ hahead'.ended, ?_, htakes⟩
  rw [hinput'', ← hinput']
  omega

theorem ne_zero_of_canBe {c : Byte} (h : canBeInNonQuotedString c = true) : c ≠ 0 := by
  rintro rfl
  exact absurd h (by decide)

theorem safely_nonQuotedLoop (h : Ended s.input) {rounds : ℕ} (hrounds : s.input.length < rounds)
    {p : MemoryPool} {b : StringBuilder} (hb : Building p b s) {c : Byte} {rest : List Byte}
    (hinput : s.input = c :: rest) (hc : canBeInNonQuotedString c = true) :
    Safely (nonQuotedLoop rounds c b) s fun b' t =>
      Ahead s t ∧ t.input.length < s.input.length ∧ Building p b' t := by
  induction rounds generalizing s b c rest with
  | zero => exact absurd hrounds (Nat.not_lt_zero _)
  | succ rounds ih =>
      rw [nonQuotedLoop]
      refine safely_bind ((safely_move_of_ne h hinput (ne_zero_of_canBe hc)).mono ?_)
      rintro - t ⟨hahead, hlen⟩
      dsimp only
      refine safely_bind ((safely_current hahead.ended).mono ?_)
      rintro d u ⟨rfl, rest', hinput'⟩
      split_ifs with hd
      · refine (ih hahead.ended (by omega) (hb.append hahead.pool c) hinput' hd).mono ?_
        rintro b' v ⟨hahead', hlen', hb'⟩
        exact ⟨hahead.trans hahead', by omega, hb'⟩
      · exact safely_pure ⟨hahead, hlen, hb.append hahead.pool c⟩

theorem safely_parseNonQuotedString (h : Ended s.input) (hroom : s.pool.left ≤ s.pool.right) :
    Safely parseNonQuotedString s fun str t => Read s t (str.length + 1) := by
  rw [parseNonQuotedString]
  refine safely_bind ((safely_startString hroom).mono ?_)
  rintro b t ⟨hinput, hb⟩
  have hended : Ended t.input := hinput.symm ▸ h
  refine safely_bind ((safely_current hended).mono ?_)
  rintro c u ⟨rfl, rest, hrest⟩
  split_ifs with hzero hc
  · exact safely_throw _ _
  · refine safely_bind ((safely_nonQuotedLoop hended (Nat.lt_succ_self _) hb hrest hc).mono ?_)
    rintro b' v ⟨hahead, hlen, hb'⟩
    refine (safely_complete hb').mono ?_
    rintro str w ⟨hinput', htakes⟩
    refine ⟨hinput'.symm ▸ hahead.ended, ?_, htakes⟩
    rwa [hinput', ← hinput]
  · exact safely_throw _ _

/-- **A key** takes its characters and a zero. -/
theorem safely_parseKey (h : Ended s.input) (hroom : s.pool.left ≤ s.pool.right) :
    Safely parseKey s fun str t => Read s t (str.length + 1) := by
  rw [parseKey]
  refine safely_bind ((safely_current h).mono ?_)
  rintro c t ⟨rfl, rest, hinput⟩
  split_ifs with hquote
  · exact safely_parseQuotedString h hroom hinput hquote
  · exact safely_parseNonQuotedString h hroom

/-- The token of a number: at most as much as the buffer has room for. -/
theorem safely_tokenLoop (h : Ended s.input) (room : ℕ) (buffer : List Byte) :
    Safely (tokenLoop room buffer) s fun token t => Ahead s t ∧
      token.length ≤ buffer.length + room ∧
      (buffer.length < token.length → t.input.length < s.input.length) := by
  induction room generalizing s buffer with
  | zero =>
      rw [tokenLoop]
      refine safely_bind ((safely_current h).mono ?_)
      rintro c t ⟨rfl, -⟩
      exact safely_pure
        ⟨⟨h, Nat.le_refl _, rfl⟩, Nat.le_refl _, fun h => absurd h (Nat.lt_irrefl _)⟩
  | succ room ih =>
      rw [tokenLoop]
      refine safely_bind ((safely_current h).mono ?_)
      rintro c t ⟨rfl, rest, hinput⟩
      dsimp only
      split_ifs with hc
      · refine safely_bind ((safely_move_of_ne h hinput (ne_zero_of_canBe hc)).mono ?_)
        rintro - u ⟨hahead, hlen⟩
        refine (ih hahead.ended (buffer ++ [c])).mono ?_
        rintro token v ⟨hahead', htoken, -⟩
        rw [List.length_append, List.length_singleton] at htoken
        have := hahead'.length
        exact ⟨hahead.trans hahead', by omega, fun _ => by omega⟩
      · exact safely_pure ⟨⟨h, Nat.le_refl _, rfl⟩, Nat.le_add_right _ _,
          fun h => absurd h (Nat.lt_irrefl _)⟩

/-- A value that is no collection and no string. -/
def Scalar (v : VariantData) : Prop := v.memoryUsage = 0 ∧ v.nesting = 0

/-- **A token** is read as something, and never leads past a table. -/
theorem safely_tokenValue {token : List Byte} (h : token.length < 64) :
    Safely (tokenValue token) s fun v t => t = s ∧ Scalar v ∧ token ≠ [] := by
  have hne : ∀ {c : Byte}, token.headD 0 = c → c ≠ 0 → token ≠ [] := by
    rintro c hc hzero rfl
    exact hzero hc.symm
  have hscalar : Scalar (.boolean true) ∧ Scalar (.boolean false) ∧ Scalar .null :=
    ⟨⟨rfl, rfl⟩, ⟨rfl, rfl⟩, rfl, rfl⟩
  rw [tokenValue]
  split_ifs with ht hlen hf hlen hn hlen
  · exact safely_pure ⟨rfl, hscalar.1, hne ht (by decide)⟩
  · exact safely_throw _ _
  · exact safely_pure ⟨rfl, hscalar.2.1, hne hf (by decide)⟩
  · exact safely_throw _ _
  · exact safely_pure ⟨rfl, hscalar.2.2, hne hn (by decide)⟩
  · exact safely_throw _ _
  · have hsome := parseNumber_isSome h
    cases hnumber : parseNumber token with
    | none =>
        rw [hnumber] at hsome
        cases hsome
    | some r =>
        have hnil : r ≠ .null → token ≠ [] := by
          rintro hr rfl
          exact hr (Option.some.inj hnumber.symm)
        cases r with
        | null => exact safely_throw _ _
        | negativeInteger value => exact safely_pure ⟨rfl, ⟨rfl, rfl⟩, hnil (by simp)⟩
        | positiveInteger value => exact safely_pure ⟨rfl, ⟨rfl, rfl⟩, hnil (by simp)⟩
        | float value => exact safely_pure ⟨rfl, ⟨rfl, rfl⟩, hnil (by simp)⟩

/-- A value has been read, and `depth` bounds its nesting. -/
def ReadValue (depth : ℕ) (s : Source) (v : VariantData) (t : Source) : Prop :=
  Read s t v.memoryUsage ∧ v.nesting ≤ depth

theorem safely_parseNumericValue (h : Ended s.input) (hroom : s.pool.left ≤ s.pool.right)
    (depth : ℕ) : Safely parseNumericValue s (ReadValue depth s) := by
  rw [parseNumericValue]
  refine safely_bind ((safely_tokenLoop h 63 []).mono ?_)
  rintro token t ⟨hahead, htoken, hlen⟩
  refine (safely_tokenValue (Nat.lt_succ_of_le (by simpa using htoken))).mono ?_
  rintro v u ⟨rfl, ⟨husage, hnesting⟩, hne⟩
  refine ⟨⟨hahead.ended, hlen (List.length_pos_iff.2 hne), ?_⟩, ?_⟩
  · rw [husage, hahead.pool]
    exact Takes.refl hroom
  · rw [hnesting]
    exact Nat.zero_le _

theorem safely_parseValue (h : Ended s.input) (hroom : s.pool.left ≤ s.pool.right) (depth : ℕ) :
    Safely parseValue s (ReadValue depth s) := by
  rw [parseValue]
  refine safely_bind ((safely_current h).mono ?_)
  rintro c t ⟨rfl, rest, hinput⟩
  split_ifs with hquote
  · rw [parseStringValue]
    refine safely_bind ((safely_parseQuotedString h hroom hinput hquote).mono ?_)
    intro str u hread
    exact safely_pure ⟨hread, Nat.zero_le _⟩
  · exact safely_parseNumericValue h hroom depth

theorem addSlot_apply (s : Source) :
    addSlot s = (if s.pool.left + VARIANT_SLOT ≤ s.pool.right then
      set { s with pool := { s.pool with right := s.pool.right - VARIANT_SLOT } }
    else throw .noMemory : Deserializer Unit) s := rfl

theorem safely_addSlot (s : Source) :
    Safely addSlot s fun _ t => t.input = s.input ∧ Takes s.pool t.pool VARIANT_SLOT := by
  rw [Safely, addSlot_apply]
  split_ifs with hfree
  · refine ⟨.ok ((), { s with pool := { s.pool with right := s.pool.right - VARIANT_SLOT } }), rfl,
      fun _ t heq => ?_⟩
    obtain ⟨-, rfl⟩ := Prod.mk.inj (Except.ok.inj heq)
    refine ⟨rfl, Nat.le_refl _, ?_, Nat.sub_le _ _, ?_⟩ <;> dsimp only <;> omega
  · exact safely_throw _ _

/-- What reads the elements of a collection does so within bounds. -/
def SafelyReads (parse : Deserializer VariantData) (depth : ℕ) : Prop :=
  ∀ s : Source, Ended s.input → s.pool.left ≤ s.pool.right →
    Safely parse s (ReadValue depth s)

theorem safely_arrayLoop {parse : Deserializer VariantData} {depth : ℕ}
    (hparse : SafelyReads parse depth) (h : Ended s.input) {rounds : ℕ}
    (hrounds : s.input.length < rounds) {slots : List VariantData} {p : MemoryPool}
    (htakes : Takes p s.pool (VariantData.elementUsage slots))
    (hdepth : VariantData.maxElementNesting slots ≤ depth) :
    Safely (arrayLoop parse rounds slots) s fun v t => Ended t.input ∧
      t.input.length < s.input.length ∧ Takes p t.pool v.memoryUsage ∧ v.nesting ≤ depth + 1 := by
  induction rounds generalizing s slots with
  | zero => exact absurd hrounds (Nat.not_lt_zero _)
  | succ rounds ih =>
      rw [arrayLoop]
      refine safely_bind ((safely_addSlot s).mono ?_)
      rintro - t ⟨hinput, hslot⟩
      refine safely_bind ((hparse t (hinput.symm ▸ h) hslot.room).mono ?_)
      rintro v u ⟨hread, hv⟩
      refine safely_bind ((safely_skipSpacesAndComments hread.ended).mono ?_)
      intro _ w hahead
      refine safely_bind ((safely_eat hahead.ended (by decide)).mono ?_)
      rintro close x ⟨hahead', -⟩
      have husage : Takes p x.pool (VariantData.elementUsage (slots ++ [v])) := by
        rw [VariantData.elementUsage_append, VariantData.elementUsage, VariantData.elementUsage,
          Nat.add_zero, hahead'.pool, hahead.pool]
        exact htakes.trans (hslot.trans hread.takes)
      have hnesting : VariantData.maxElementNesting (slots ++ [v]) ≤ depth := by
        rw [VariantData.maxElementNesting_append, VariantData.maxElementNesting,
          VariantData.maxElementNesting, Nat.max_zero]
        exact Nat.max_le.2 ⟨hdepth, hv⟩
      have hlen := hread.length
      have hlen' := hahead.length
      have hlen'' := hahead'.length
      rw [hinput] at hlen
      split_ifs
      · exact safely_pure ⟨hahead'.ended, by omega, husage, Nat.succ_le_succ hnesting⟩
      · refine safely_bind ((safely_eat hahead'.ended (by decide)).mono ?_)
        rintro more y ⟨hahead'', hmore⟩
        split_ifs with heaten
        · have hlen₃ := hmore heaten
          rw [← hahead''.pool] at husage
          refine (ih hahead''.ended (by omega) husage hnesting).mono ?_
          rintro v' z ⟨hended, hlen₄, htakes', hv'⟩
          exact ⟨hended, by omega, htakes', hv'⟩
        · exact safely_throw _ _

theorem safely_parseArray {parse : Option (Deserializer VariantData)} {depth : ℕ}
    (hparse : ∀ p ∈ parse, ∃ d, depth = d + 1 ∧ SafelyReads p d) (h : Ended s.input)
    (hroom : s.pool.left ≤ s.pool.right) :
    Safely (parseArray parse) s (ReadValue depth s) := by
  cases parse with
  | none => exact safely_throw _ _
  | some parse =>
      obtain ⟨d, rfl, hreads⟩ := hparse parse rfl
      rw [parseArray]
      refine safely_bind ((safely_eat h (by decide)).mono ?_)
      rintro bracket t ⟨hahead, hlen⟩
      split_ifs with hbracket
      · have hlen := hlen hbracket
        refine safely_bind ((safely_skipSpacesAndComments hahead.ended).mono ?_)
        intro _ u hahead'
        refine safely_bind ((safely_eat hahead'.ended (by decide)).mono ?_)
        rintro close w ⟨hahead'', -⟩
        have hpool := hahead''.pool.trans (hahead'.pool.trans hahead.pool)
        have hlen' := hahead'.length
        have hlen'' := hahead''.length
        have htakes : Takes s.pool w.pool (VariantData.elementUsage []) := by
          rw [hpool]
          exact Takes.refl hroom
        split_ifs
        · exact safely_pure ⟨⟨hahead''.ended, by omega, htakes⟩, Nat.succ_le_succ (Nat.zero_le _)⟩
        · refine safely_apply ((safely_arrayLoop hreads hahead''.ended (Nat.lt_succ_self _) htakes
            (Nat.zero_le _)).mono ?_)
          rintro v x ⟨hended, hlen₃, htakes', hv⟩
          exact ⟨⟨hended, by omega, htakes'⟩, hv⟩
      · exact safely_throw _ _

theorem safely_objectLoop {parse : Deserializer VariantData} {depth : ℕ}
    (hparse : SafelyReads parse depth) (h : Ended s.input) {rounds : ℕ}
    (hrounds : s.input.length < rounds) {slots : List (List Byte × VariantData)} {p : MemoryPool}
    (htakes : Takes p s.pool (VariantData.memberUsage slots))
    (hdepth : VariantData.maxMemberNesting slots ≤ depth) :
    Safely (objectLoop parse rounds slots) s fun v t => Ended t.input ∧
      t.input.length < s.input.length ∧ Takes p t.pool v.memoryUsage ∧ v.nesting ≤ depth + 1 := by
  induction rounds generalizing s slots with
  | zero => exact absurd hrounds (Nat.not_lt_zero _)
  | succ rounds ih =>
      rw [objectLoop]
      refine safely_bind ((safely_addSlot s).mono ?_)
      rintro - t ⟨hinput, hslot⟩
      refine safely_bind ((safely_parseKey (hinput.symm ▸ h) hslot.room).mono ?_)
      intro key u hkey
      refine safely_bind ((safely_skipSpacesAndComments hkey.ended).mono ?_)
      intro _ w hahead
      refine safely_bind ((safely_eat hahead.ended (by decide)).mono ?_)
      rintro colon x ⟨hahead₁, -⟩
      have hpool₁ := hahead₁.pool.trans hahead.pool
      split_ifs with hcolon
      · refine safely_bind ((hparse x hahead₁.ended (hpool₁.symm ▸ hkey.takes.room)).mono ?_)
        rintro v y ⟨hread, hv⟩
        refine safely_bind ((safely_skipSpacesAndComments hread.ended).mono ?_)
        intro _ z hahead₂
        refine safely_bind ((safely_eat hahead₂.ended (by decide)).mono ?_)
        rintro close a ⟨hahead₃, -⟩
        have htakes₁ : Takes u.pool y.pool v.memoryUsage := hpool₁ ▸ hread.takes
        have husage : Takes p a.pool (VariantData.memberUsage (slots ++ [(key, v)])) := by
          have hall := htakes.trans (hslot.trans (hkey.takes.trans htakes₁))
          rw [VariantData.memberUsage_append, VariantData.memberUsage, VariantData.memberUsage,
            Nat.add_zero, hahead₃.pool, hahead₂.pool, Nat.add_assoc VARIANT_SLOT,
            Nat.add_comm v.memoryUsage]
          exact hall
        have hnesting : VariantData.maxMemberNesting (slots ++ [(key, v)]) ≤ depth := by
          rw [VariantData.maxMemberNesting_append, VariantData.maxMemberNesting,
            VariantData.maxMemberNesting, Nat.max_zero]
          exact Nat.max_le.2 ⟨hdepth, hv⟩
        have hlen := hkey.length
        have hlen₁ := hahead.length
        have hlen₂ := hahead₁.length
        have hlen₃ := hread.length
        have hlen₄ := hahead₂.length
        have hlen₅ := hahead₃.length
        rw [hinput] at hlen
        split_ifs
        · exact safely_pure ⟨hahead₃.ended, by omega, husage, Nat.succ_le_succ hnesting⟩
        · refine safely_bind ((safely_eat hahead₃.ended (by decide)).mono ?_)
          rintro more b ⟨hahead₄, -⟩
          split_ifs with heaten
          · refine safely_bind ((safely_skipSpacesAndComments hahead₄.ended).mono ?_)
            intro _ c hahead₅
            have hlen₆ := hahead₄.length
            have hlen₇ := hahead₅.length
            rw [← hahead₄.pool, ← hahead₅.pool] at husage
            refine (ih hahead₅.ended (by omega) husage hnesting).mono ?_
            rintro v' d ⟨hended, hlen₈, htakes', hv'⟩
            exact ⟨hended, by omega, htakes', hv'⟩
          · exact safely_throw _ _
      · exact safely_throw _ _

theorem safely_parseObject {parse : Option (Deserializer VariantData)} {depth : ℕ}
    (hparse : ∀ p ∈ parse, ∃ d, depth = d + 1 ∧ SafelyReads p d) (h : Ended s.input)
    (hroom : s.pool.left ≤ s.pool.right) :
    Safely (parseObject parse) s (ReadValue depth s) := by
  cases parse with
  | none => exact safely_throw _ _
  | some parse =>
      obtain ⟨d, rfl, hreads⟩ := hparse parse rfl
      rw [parseObject]
      refine safely_bind ((safely_eat h (by decide)).mono ?_)
      rintro brace t ⟨hahead, hlen⟩
      split_ifs with hbrace
      · have hlen := hlen hbrace
        refine safely_bind ((safely_skipSpacesAndComments hahead.ended).mono ?_)
        intro _ u hahead'
        refine safely_bind ((safely_eat hahead'.ended (by decide)).mono ?_)
        rintro close w ⟨hahead'', -⟩
        have hpool := hahead''.pool.trans (hahead'.pool.trans hahead.pool)
        have hlen' := hahead'.length
        have hlen'' := hahead''.length
        have htakes : Takes s.pool w.pool (VariantData.memberUsage []) := by
          rw [hpool, VariantData.memberUsage]
          exact Takes.refl hroom
        have hnesting : VariantData.maxMemberNesting [] ≤ d := by
          rw [VariantData.maxMemberNesting]
          exact Nat.zero_le d
        split_ifs
        · refine safely_pure ⟨⟨hahead''.ended, by omega, ?_⟩, ?_⟩
          · rw [VariantData.memoryUsage]
            exact htakes
          · rw [VariantData.nesting]
            exact Nat.succ_le_succ hnesting
        · refine safely_apply ((safely_objectLoop hreads hahead''.ended (Nat.lt_succ_self _) htakes
            hnesting).mono ?_)
          rintro v x ⟨hended, hlen₃, htakes', hv⟩
          exact ⟨⟨hended, by omega, htakes'⟩, hv⟩
      · exact safely_throw _ _

theorem safely_parseWith {parse : Option (Deserializer VariantData)} {depth : ℕ}
    (hparse : ∀ p ∈ parse, ∃ d, depth = d + 1 ∧ SafelyReads p d) :
    SafelyReads (parseWith parse) depth := by
  intro s h hroom
  rw [parseWith]
  refine safely_bind ((safely_skipSpacesAndComments h).mono ?_)
  intro _ t hahead
  refine safely_bind ((safely_current hahead.ended).mono ?_)
  rintro c u ⟨heq, -⟩
  subst u
  have hroom' : t.pool.left ≤ t.pool.right := by
    rw [hahead.pool]
    exact hroom
  have hlater : ∀ v w, ReadValue depth t v w → ReadValue depth s v w := by
    rintro v w ⟨⟨hended, hlen, htakes⟩, hdepth⟩
    exact ⟨⟨hended, Nat.lt_of_lt_of_le hlen hahead.length, hahead.pool ▸ htakes⟩, hdepth⟩
  split_ifs
  · exact (safely_parseArray hparse hahead.ended hroom').mono hlater
  · exact (safely_parseObject hparse hahead.ended hroom').mono hlater
  · exact (safely_parseValue hahead.ended hroom' depth).mono hlater

/-- **Reading stays in bounds**, whatever the text and however much of the pool is left. -/
theorem safely_parse (nestingLimit : ℕ) : SafelyReads (parse nestingLimit) nestingLimit := by
  induction nestingLimit with
  | zero => exact safely_parseWith fun p hp => (by cases hp)
  | succ nestingLimit ih =>
      refine safely_parseWith fun p hp => ⟨nestingLimit, rfl, ?_⟩
      obtain rfl := Option.some.inj hp
      exact ih

end Deserializer

/-- **Every text is safe to read.**  Reading ends, with a document or an error, and has
not passed the end of the text; and a document takes from the pool exactly its memory
usage, which the pool has room for, and is nested within the limit. -/
theorem deserializeJson_defined (text : List Byte) :
    ∃ r, deserializeJson text = some r ∧ ∀ v t, r = .ok (v, t) →
      v.nesting ≤ DEFAULT_NESTING_LIMIT ∧ v.memoryUsage ≤ JSON_BUFF_SIZE ∧
      t.pool.left + (JSON_BUFF_SIZE - t.pool.right) = v.memoryUsage ∧ Ended t.input := by
  obtain ⟨r, hr, hread⟩ := Deserializer.safely_parse DEFAULT_NESTING_LIMIT
    ⟨text.takeWhile (· ≠ 0) ++ [0], ⟨0, JSON_BUFF_SIZE⟩⟩ ⟨_, rfl⟩ (Nat.zero_le _)
  refine ⟨r, hr, fun v t heq => ?_⟩
  obtain ⟨⟨hended, -, htakes⟩, hnesting⟩ := hread v t heq
  have hroom := htakes.room
  have hright : t.pool.right ≤ JSON_BUFF_SIZE := htakes.right
  have hsize : t.pool.left + JSON_BUFF_SIZE = 0 + t.pool.right + v.memoryUsage := htakes.size
  exact ⟨hnesting, by omega, by omega, hended⟩

end Json
end Remora
