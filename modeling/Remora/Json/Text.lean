/-
# What a configuration is written in

The language that the deserializer reads, as texts and not as a way through them: what
may stand between two tokens (`Layout`), strings and keys (`Quoted`, `Key`), tokens
(`Token`), and values put together from them (`Written`).  It is JSON, and more: there
are comments, single quotes and bare keys; a token that begins with `t`, `f` or `n` is
taken by its length; a string has no `\u`.

This file has the functions below `parse`.  Each reads exactly the texts of its part,
which is proved in two halves: what it returns from was such a text (`…_sound`), and it
returns from every such text that is followed by something else (`returns_…`).
-/

import Mathlib.Data.List.Infix
import Remora.Json.Bounds

namespace Remora
namespace Json

open Basis Program

/-- White space. -/
abbrev IsSpace (c : Byte) : Prop := c = 0x20 ∨ c = 0x09 ∨ c = 0x0D ∨ c = 0x0A

theorem IsSpace.ne_zero {c : Byte} (h : IsSpace c) : c ≠ 0 := by
  rintro rfl
  rcases h with h | h | h | h <;> exact absurd h (by decide)

/-- What may stand between two tokens: white space and comments. -/
inductive Layout : List Byte → Prop where
  | nil : Layout []
  | space {c : Byte} {rest : List Byte} : IsSpace c → Layout rest → Layout (c :: rest)
  | block {body rest : List Byte} : 0 ∉ body → ¬[0x2A, 0x2F] <:+: body → Layout rest →
      Layout (0x2F :: 0x2A :: (body ++ 0x2A :: 0x2F :: rest))
  | trailing {body rest : List Byte} : 0 ∉ body → 0x0A ∉ body → Layout rest →
      Layout (0x2F :: 0x2F :: (body ++ 0x0A :: rest))

/-- Neither layout nor the end of the text comes next. -/
def Solid (input : List Byte) : Prop :=
  ∃ c rest, input = c :: rest ∧ ¬IsSpace c ∧ c ≠ 0x2F ∧ c ≠ 0

open Deserializer in
/-- A string, and how it is written between quotes. -/
inductive Quoted (quote : Byte) : List Byte → List Byte → Prop where
  | nil : Quoted quote [] []
  | char {c : Byte} {str text : List Byte} : c ≠ quote → c ≠ 0 → c ≠ 0x5C →
      Quoted quote str text → Quoted quote (c :: str) (c :: text)
  | escape {c : Byte} {str text : List Byte} : c ≠ 0 → c ≠ 0x75 →
      Quoted quote str text → Quoted quote (unescapeChar c :: str) (0x5C :: c :: text)

open Deserializer in
/-- A key, and how it is written. -/
inductive Key : List Byte → List Byte → Prop where
  | quoted {quote : Byte} {key text : List Byte} : isQuote quote = true →
      Quoted quote key text → Key key (quote :: (text ++ [quote]))
  | bare {key : List Byte} : key ≠ [] → (∀ c ∈ key, canBeInNonQuotedString c = true) → Key key key

/-- What `parseNumericValue` makes of a number. -/
def ParsedNumber.toVariant : ParsedNumber → Option VariantData
  | .null => none
  | .negativeInteger value => some (.negativeInteger value)
  | .positiveInteger value => some (.positiveInteger value)
  | .float value => some (.float value)

/-- What a token stands for, by its first character. -/
inductive Denotes : VariantData → List Byte → Prop where
  | true {text : List Byte} : text.headD 0 = 0x74 → text.length = 4 → Denotes (.boolean true) text
  | false {text : List Byte} : text.headD 0 = 0x66 → text.length = 5 →
      Denotes (.boolean false) text
  | null {text : List Byte} : text.headD 0 = 0x6E → text.length = 4 → Denotes .null text
  | number {text : List Byte} {n : ParsedNumber} {v : VariantData} :
      text.headD 0 ≠ 0x74 → text.headD 0 ≠ 0x66 → text.headD 0 ≠ 0x6E →
      parseNumber text = some n → n.toVariant = some v → Denotes v text

open Deserializer in
/-- A token is read from a buffer of 64 characters, a zero included. -/
structure Token (v : VariantData) (text : List Byte) : Prop where
  chars : ∀ c ∈ text, canBeInNonQuotedString c = true
  length : text.length ≤ 63
  denotes : Denotes v text

open Deserializer in
/-- A token ends where no further character can belong to it, or where the buffer is full.
Other values end by themselves. -/
def Stops (text rest : List Byte) : Prop :=
  (∀ c ∈ text, canBeInNonQuotedString c = true) →
    text.length = 63 ∨ ∀ c ∈ rest.head?, canBeInNonQuotedString c = false

namespace Deserializer

variable {s t : Source}

@[simp] theorem returns_current {c : Byte} :
    Returns current s c t ↔ t = s ∧ ∃ rest, s.input = c :: rest := by
  cases hinput : s.input with
  | nil =>
      have hcurrent : current s = (Program.undefined : Deserializer Byte) s := by
        rw [current, hinput]
      rw [Returns, hcurrent]
      simp [Program.undefined]
  | cons d rest =>
      have hcurrent : current s = (pure d : Deserializer Byte) s := by rw [current, hinput]
      rw [Returns, hcurrent, ← Returns, returns_pure]
      constructor
      · rintro ⟨rfl, rfl⟩
        exact ⟨rfl, rest, rfl⟩
      · rintro ⟨rfl, rest', heq⟩
        exact ⟨(List.cons.inj heq).1.symm, rfl⟩

@[simp] theorem returns_move {u : Unit} :
    Returns move s u t ↔ t = { s with input := s.input.tail } := by
  constructor
  · intro h
    exact (Prod.mk.inj (Except.ok.inj (Option.some.inj h))).2.symm
  · rintro rfl
    rfl

/-- Reading a text from the state that stands before it. -/
theorem returns_current_cons (c : Byte) (rest : List Byte) (p : MemoryPool) :
    Returns current ⟨c :: rest, p⟩ c ⟨c :: rest, p⟩ := returns_current.2 ⟨rfl, rest, rfl⟩

theorem returns_move_cons (c : Byte) (rest : List Byte) (p : MemoryPool) :
    Returns move ⟨c :: rest, p⟩ () ⟨rest, p⟩ := returns_move.2 rfl

/-- **A block comment** ends at the first `*/`. -/
theorem blockComment_sound {rounds : ℕ} {wasStar : Bool}
    (h : Returns (blockComment rounds wasStar) s () t) :
    t.pool = s.pool ∧ (wasStar = true ∧ s.input = 0x2F :: t.input ∨
      ∃ body, 0 ∉ body ∧ ¬[0x2A, 0x2F] <:+: body ∧ (wasStar = true → body.head? ≠ some 0x2F) ∧
        s.input = body ++ 0x2A :: 0x2F :: t.input) := by
  induction rounds generalizing s wasStar with
  | zero => exact absurd h (by rw [blockComment, returns_undefined]; exact id)
  | succ rounds ih =>
      rw [blockComment, returns_bind] at h
      obtain ⟨c, u, hc, h⟩ := h
      obtain ⟨rfl, rest, hinput⟩ := returns_current.1 hc
      split_ifs at h with hzero hclose
      · exact absurd h (by rw [returns_throw]; exact id)
      · rw [returns_move] at h
        subst h
        exact ⟨rfl, Or.inl ⟨hclose.2, by rw [hinput, hclose.1]; rfl⟩⟩
      · rw [returns_bind] at h
        obtain ⟨_, v, hmove, h⟩ := h
        rw [returns_move, hinput] at hmove
        subst hmove
        obtain ⟨hpool, hbody⟩ := ih h
        refine ⟨hpool, Or.inr ?_⟩
        rcases hbody with ⟨hstar, hrest⟩ | ⟨body, hzero', hinner, hhead, hrest⟩
        · -- the star that has just been read is the one of the end
          refine ⟨[], List.not_mem_nil, by decide, by simp, ?_⟩
          rw [hinput, of_decide_eq_true hstar]
          exact congrArg _ hrest
        · refine ⟨c :: body, ?_, ?_, ?_, by rw [hinput]; exact congrArg _ hrest⟩
          · exact List.not_mem_cons_of_ne_of_not_mem (Ne.symm hzero) hzero'
          · rw [List.infix_cons_iff]
            rintro (hstart | h)
            · obtain ⟨hc, hstart⟩ := List.cons_prefix_cons.1 hstart
              refine hhead (decide_eq_true hc.symm) ?_
              cases body with
              | nil => cases List.prefix_nil.1 hstart
              | cons d body => rw [(List.cons_prefix_cons.1 hstart).1]; rfl
            · exact hinner h
          · intro hwas heq
            exact hclose ⟨Option.some.inj heq, hwas⟩

theorem returns_blockComment {body : List Byte} (hzero : 0 ∉ body)
    (hinner : ¬[0x2A, 0x2F] <:+: body) {wasStar : Bool}
    (hhead : wasStar = true → body.head? ≠ some 0x2F) {rounds : ℕ}
    (hrounds : body.length + 1 < rounds) (rest : List Byte) (p : MemoryPool) :
    Returns (blockComment rounds wasStar) ⟨body ++ 0x2A :: 0x2F :: rest, p⟩ () ⟨rest, p⟩ := by
  induction body generalizing rounds wasStar with
  | nil =>
      obtain ⟨rounds, rfl⟩ : ∃ r, rounds = r + 2 := ⟨rounds - 2, by omega⟩
      rw [blockComment]
      refine (returns_current_cons _ _ _).bind ?_
      rw [if_neg (by decide), if_neg (by simp)]
      refine (returns_move_cons _ _ _).bind ?_
      rw [blockComment]
      refine (returns_current_cons _ _ _).bind ?_
      rw [if_neg (by decide), if_pos ⟨rfl, by decide⟩]
      exact returns_move_cons _ _ _
  | cons c body ih =>
      obtain ⟨rounds, rfl⟩ : ∃ r, rounds = r + 1 := ⟨rounds - 1, by omega⟩
      obtain ⟨hne, hzero'⟩ := not_or.1 (List.mem_cons.not.1 hzero)
      rw [blockComment]
      refine (returns_current_cons _ _ _).bind ?_
      rw [if_neg (Ne.symm hne), if_neg fun h => hhead h.2 (by rw [h.1]; rfl)]
      refine (returns_move_cons _ _ _).bind (ih hzero' (fun h => ?_) (fun hstar hslash => ?_) ?_)
      · exact hinner (List.infix_cons_iff.2 (Or.inr h))
      · obtain ⟨body, rfl⟩ := List.head?_eq_some_iff.1 hslash
        rw [of_decide_eq_true hstar] at hinner
        exact hinner ⟨[], body, rfl⟩
      · rw [List.length_cons] at hrounds
        omega

/-- **A trailing comment** ends before the end of its line. -/
theorem trailingComment_sound {rounds : ℕ} (h : Returns (trailingComment rounds) s () t) :
    t.pool = s.pool ∧ ∃ body rest, 0 ∉ body ∧ 0x0A ∉ body ∧ t.input = 0x0A :: rest ∧
      s.input.tail = body ++ t.input := by
  induction rounds generalizing s with
  | zero => exact absurd h (by rw [trailingComment, returns_undefined]; exact id)
  | succ rounds ih =>
      rw [trailingComment, returns_bind] at h
      obtain ⟨_, u, hmove, h⟩ := h
      rw [returns_move] at hmove
      subst hmove
      rw [returns_bind] at h
      obtain ⟨c, v, hc, h⟩ := h
      obtain ⟨rfl, rest, hinput⟩ := returns_current.1 hc
      dsimp only at hinput
      split_ifs at h with hzero hend
      · exact absurd h (by rw [returns_throw]; exact id)
      · obtain ⟨-, rfl⟩ := returns_pure.1 h
        exact ⟨rfl, [], rest, List.not_mem_nil, List.not_mem_nil, by rw [← hend]; exact hinput, rfl⟩
      · obtain ⟨hpool, body, rest', hzero', hend', hrest, htail⟩ := ih h
        refine ⟨hpool, c :: body, rest', List.not_mem_cons_of_ne_of_not_mem (Ne.symm hzero) hzero',
          List.not_mem_cons_of_ne_of_not_mem (Ne.symm hend) hend', hrest, ?_⟩
        rw [hinput] at htail ⊢
        exact congrArg _ htail

theorem returns_trailingComment {body : List Byte} (hzero : 0 ∉ body) (hend : 0x0A ∉ body)
    {rounds : ℕ} (hrounds : body.length < rounds) (c : Byte) (rest : List Byte) (p : MemoryPool) :
    Returns (trailingComment rounds) ⟨c :: (body ++ 0x0A :: rest), p⟩ () ⟨0x0A :: rest, p⟩ := by
  induction body generalizing rounds c with
  | nil =>
      obtain ⟨rounds, rfl⟩ : ∃ r, rounds = r + 1 := ⟨rounds - 1, by omega⟩
      rw [trailingComment]
      refine (returns_move_cons _ _ _).bind ((returns_current_cons _ _ _).bind ?_)
      rw [if_neg (by decide), if_pos rfl]
      exact returns_pure.2 ⟨rfl, rfl⟩
  | cons d body ih =>
      obtain ⟨rounds, rfl⟩ : ∃ r, rounds = r + 1 := ⟨rounds - 1, by omega⟩
      obtain ⟨hne, hzero'⟩ := not_or.1 (List.mem_cons.not.1 hzero)
      obtain ⟨hne', hend'⟩ := not_or.1 (List.mem_cons.not.1 hend)
      rw [trailingComment]
      refine (returns_move_cons _ _ _).bind ((returns_current_cons _ _ _).bind ?_)
      rw [if_neg (Ne.symm hne), if_neg (Ne.symm hne')]
      exact ih hzero' hend' (by rw [List.length_cons] at hrounds; omega) d

/-- **White space and comments** are skipped as far as they go. -/
theorem spacesLoop_sound {rounds : ℕ} (h : Returns (spacesLoop rounds) s () t) :
    t.pool = s.pool ∧ Solid t.input ∧ ∃ lead, Layout lead ∧ s.input = lead ++ t.input := by
  induction rounds generalizing s with
  | zero => exact absurd h (by rw [spacesLoop, returns_undefined]; exact id)
  | succ rounds ih =>
      rw [spacesLoop, returns_bind] at h
      obtain ⟨c, u, hc, h⟩ := h
      obtain ⟨rfl, rest, hinput⟩ := returns_current.1 hc
      split_ifs at h with hzero hspace hslash
      · exact absurd h (by rw [returns_throw]; exact id)
      · rw [returns_bind] at h
        obtain ⟨_, v, hmove, h⟩ := h
        rw [returns_move, hinput] at hmove
        subst hmove
        obtain ⟨hpool, hsolid, lead, hlead, hrest⟩ := ih h
        exact ⟨hpool, hsolid, c :: lead, .space hspace hlead, by
          rw [hinput]
          exact congrArg _ hrest⟩
      · rw [returns_bind] at h
        obtain ⟨_, v, hmove, h⟩ := h
        rw [returns_move, hinput] at hmove
        subst hmove
        rw [returns_bind] at h
        obtain ⟨d, w, hd, h⟩ := h
        obtain ⟨rfl, rest', hinput'⟩ := returns_current.1 hd
        dsimp only at hinput'
        subst hinput'
        split_ifs at h with hstar hline
        · rw [returns_bind] at h
          obtain ⟨_, x, hmove, h⟩ := h
          rw [returns_move] at hmove
          subst hmove
          rw [returns_bind] at h
          obtain ⟨_, y, hcomment, h⟩ := h
          obtain ⟨hpool, hbody⟩ := blockComment_sound hcomment
          rcases hbody with ⟨hwas, -⟩ | ⟨body, hzero', hinner, -, hrest'⟩
          · cases hwas
          · obtain ⟨hpool', hsolid, lead, hlead, hrest⟩ := ih h
            refine ⟨hpool'.trans hpool, hsolid, _, .block hzero' hinner hlead, ?_⟩
            dsimp only [List.tail_cons] at hrest'
            rw [hinput, hslash, hstar, hrest', hrest]
            simp
        · rw [returns_bind] at h
          obtain ⟨_, y, hcomment, h⟩ := h
          obtain ⟨hpool, body, rest'', hzero', hend, hy, hrest'⟩ := trailingComment_sound hcomment
          obtain ⟨hpool', hsolid, lead, hlead, hrest⟩ := ih h
          -- the end of the line is left for the loop, which takes it as white space
          obtain ⟨lead, rfl⟩ : ∃ lead', lead = 0x0A :: lead' := by
            cases lead with
            | nil =>
                obtain ⟨e, rest₃, he, hspace', -⟩ := hsolid
                rw [hy, List.nil_append, he] at hrest
                rw [← (List.cons.inj hrest).1] at hspace'
                exact absurd (Or.inr (Or.inr (Or.inr rfl))) hspace'
            | cons e lead =>
                rw [hy] at hrest
                exact ⟨lead, by rw [(List.cons.inj hrest).1]⟩
          have hlead' : Layout lead := by
            cases hlead with
            | space _ hlead => exact hlead
          refine ⟨hpool'.trans hpool, hsolid, _, .trailing hzero' hend hlead', ?_⟩
          dsimp only [List.tail_cons] at hrest'
          rw [hinput, hslash, hline, hrest', hrest]
          simp
        · exact absurd h (by rw [returns_throw]; exact id)
      · obtain ⟨-, rfl⟩ := returns_pure.1 h
        exact ⟨rfl, ⟨c, rest, hinput, hspace, hslash, hzero⟩, [], .nil, rfl⟩

theorem returns_spacesLoop {lead rest : List Byte} (hlead : Layout lead) (hsolid : Solid rest)
    {rounds : ℕ} (hrounds : lead.length < rounds) (p : MemoryPool) :
    Returns (spacesLoop rounds) ⟨lead ++ rest, p⟩ () ⟨rest, p⟩ := by
  induction hlead generalizing rounds with
  | nil =>
      obtain ⟨rounds, rfl⟩ : ∃ r, rounds = r + 1 := ⟨rounds - 1, by omega⟩
      obtain ⟨c, rest, rfl, hspace, hslash, hzero⟩ := hsolid
      rw [spacesLoop]
      refine (returns_current_cons _ _ _).bind ?_
      rw [if_neg hzero, if_neg hspace, if_neg hslash]
      exact returns_pure.2 ⟨rfl, rfl⟩
  | @space c lead hspace _ ih =>
      obtain ⟨rounds, rfl⟩ : ∃ r, rounds = r + 1 := ⟨rounds - 1, by omega⟩
      rw [spacesLoop]
      refine (returns_current_cons _ _ _).bind ?_
      rw [if_neg hspace.ne_zero, if_pos hspace]
      exact (returns_move_cons _ _ _).bind (ih (by rw [List.length_cons] at hrounds; omega))
  | @block body lead hzero hinner _ ih =>
      obtain ⟨rounds, rfl⟩ : ∃ r, rounds = r + 1 := ⟨rounds - 1, by omega⟩
      rw [show (0x2F :: 0x2A :: (body ++ 0x2A :: 0x2F :: lead)) ++ rest =
        0x2F :: 0x2A :: (body ++ 0x2A :: 0x2F :: (lead ++ rest)) by simp, spacesLoop]
      refine (returns_current_cons _ _ _).bind ?_
      rw [if_neg (by decide), if_neg (by decide), if_pos rfl]
      refine (returns_move_cons _ _ _).bind ((returns_current_cons _ _ _).bind ?_)
      rw [if_pos rfl]
      refine (returns_move_cons _ _ _).bind ?_
      have hcomment : Returns
          (blockComment ((body ++ 0x2A :: 0x2F :: (lead ++ rest)).length + 1) false)
          ⟨body ++ 0x2A :: 0x2F :: (lead ++ rest), p⟩ () ⟨lead ++ rest, p⟩ :=
        returns_blockComment hzero hinner (fun h => (by cases h)) (by simp) _ p
      refine Returns.bind (returns_apply.2 hcomment) (ih ?_)
      simp only [List.length_cons, List.length_append] at hrounds
      omega
  | @trailing body lead hzero hend _ ih =>
      obtain ⟨rounds, rfl⟩ : ∃ r, rounds = r + 2 := ⟨rounds - 2, by
        rw [List.length_cons] at hrounds
        omega⟩
      rw [show (0x2F :: 0x2F :: (body ++ 0x0A :: lead)) ++ rest =
        0x2F :: 0x2F :: (body ++ 0x0A :: (lead ++ rest)) by simp, spacesLoop]
      refine (returns_current_cons _ _ _).bind ?_
      rw [if_neg (by decide), if_neg (by decide), if_pos rfl]
      refine (returns_move_cons _ _ _).bind ((returns_current_cons _ _ _).bind ?_)
      rw [if_neg (by decide), if_pos rfl]
      have hcomment : Returns
          (trailingComment ((0x2F :: (body ++ 0x0A :: (lead ++ rest))).length + 1))
          ⟨0x2F :: (body ++ 0x0A :: (lead ++ rest)), p⟩ () ⟨0x0A :: (lead ++ rest), p⟩ :=
        returns_trailingComment hzero hend
          (by simp only [List.length_append, List.length_cons]; omega) _ _ p
      refine Returns.bind (returns_apply.2 hcomment) ?_
      rw [spacesLoop]
      refine (returns_current_cons _ _ _).bind ?_
      rw [if_neg (by decide), if_pos (Or.inr (Or.inr (Or.inr rfl)))]
      refine (returns_move_cons _ _ _).bind (ih ?_)
      simp only [List.length_cons, List.length_append] at hrounds
      omega

theorem skipSpacesAndComments_sound (h : Returns skipSpacesAndComments s () t) :
    t.pool = s.pool ∧ Solid t.input ∧ ∃ lead, Layout lead ∧ s.input = lead ++ t.input :=
  spacesLoop_sound h

theorem returns_skipSpacesAndComments {lead rest : List Byte} (hlead : Layout lead)
    (hsolid : Solid rest) (p : MemoryPool) :
    Returns skipSpacesAndComments ⟨lead ++ rest, p⟩ () ⟨rest, p⟩ := by
  have hloop : Returns (spacesLoop ((lead ++ rest).length + 1)) ⟨lead ++ rest, p⟩ () ⟨rest, p⟩ :=
    returns_spacesLoop hlead hsolid (by rw [List.length_append]; omega) p
  exact returns_apply.2 hloop

theorem eat_true_sound {c : Byte} (h : Returns (eat c) s true t) :
    t.pool = s.pool ∧ s.input = c :: t.input := by
  rw [eat, returns_bind] at h
  obtain ⟨d, u, hd, h⟩ := h
  obtain ⟨rfl, rest, hinput⟩ := returns_current.1 hd
  split_ifs at h with hne
  · exact absurd (returns_pure.1 h).1 (by decide)
  · rw [returns_bind] at h
    obtain ⟨_, v, hmove, h⟩ := h
    rw [returns_move] at hmove
    subst hmove
    obtain ⟨-, rfl⟩ := returns_pure.1 h
    rw [hinput, not_not.1 hne]
    exact ⟨rfl, rfl⟩

theorem eat_false_sound {c : Byte} (h : Returns (eat c) s false t) :
    t = s ∧ ∃ d rest, s.input = d :: rest ∧ d ≠ c := by
  rw [eat, returns_bind] at h
  obtain ⟨d, u, hd, h⟩ := h
  obtain ⟨rfl, rest, hinput⟩ := returns_current.1 hd
  split_ifs at h with hne
  · exact ⟨(returns_pure.1 h).2, d, rest, hinput, hne⟩
  · rw [returns_bind] at h
    obtain ⟨_, v, -, h⟩ := h
    exact absurd (returns_pure.1 h).1 (by decide)

theorem returns_eat_true (c : Byte) (rest : List Byte) (p : MemoryPool) :
    Returns (eat c) ⟨c :: rest, p⟩ true ⟨rest, p⟩ := by
  rw [eat]
  refine (returns_current_cons _ _ _).bind ?_
  rw [if_neg (not_not.2 rfl)]
  exact (returns_move_cons _ _ _).bind (returns_pure.2 ⟨rfl, rfl⟩)

theorem returns_eat_false {c d : Byte} (hne : d ≠ c) (rest : List Byte) (p : MemoryPool) :
    Returns (eat c) ⟨d :: rest, p⟩ false ⟨d :: rest, p⟩ := by
  rw [eat]
  refine (returns_current_cons _ _ _).bind ?_
  rw [if_pos hne]
  exact returns_pure.2 ⟨rfl, rfl⟩

/-! Strings. -/

@[simp] theorem returns_startString {b : StringBuilder} :
    Returns startString s b t ↔
      b = ⟨some [], s.pool.right - s.pool.left⟩ ∧
        t = { s with pool := { s.pool with left := s.pool.right } } := by
  constructor
  · intro h
    obtain ⟨rfl, rfl⟩ := Prod.mk.inj (Except.ok.inj (Option.some.inj h))
    exact ⟨rfl, rfl⟩
  · rintro ⟨rfl, rfl⟩
    rfl

/-- `append` of a string, character by character. -/
abbrev appendAll (b : StringBuilder) (str : List Byte) : StringBuilder :=
  str.foldl StringBuilder.append b

/-- **A builder holds the string**, if the string fits, and nothing if it does not. -/
theorem value_appendAll (pre str : List Byte) (size : ℕ) (hpre : pre.length ≤ size) :
    (appendAll ⟨some pre, size⟩ str).value =
      if pre.length + str.length ≤ size then some (pre ++ str) else none := by
  have hnone : ∀ str : List Byte, (appendAll ⟨none, size⟩ str).value = none := fun str => by
    induction str with
    | nil => rfl
    | cons c str ih => exact ih
  induction str generalizing pre with
  | nil => simp [hpre]
  | cons c str ih =>
      by_cases hfull : size ≤ pre.length
      · have hempty : StringBuilder.append ⟨some pre, size⟩ c = ⟨none, size⟩ := by
          simp [StringBuilder.append, hfull]
        rw [appendAll, List.foldl_cons, hempty, ← appendAll, hnone, if_neg]
        rw [List.length_cons]
        omega
      · have hmore : StringBuilder.append ⟨some pre, size⟩ c = ⟨some (pre ++ [c]), size⟩ := by
          simp [StringBuilder.append, hfull]
        rw [appendAll, List.foldl_cons, hmore, ← appendAll, ih _ (by
          rw [List.length_append, List.length_singleton]
          omega)]
        simp [Nat.add_assoc, Nat.add_comm 1]

theorem value_append_zero (str : List Byte) (size : ℕ) :
    ((appendAll ⟨some [], size⟩ str).append 0).value =
      if str.length + 1 ≤ size then some (str ++ [0]) else none := by
  have hzero : (appendAll ⟨some [], size⟩ str).append 0 =
      appendAll ⟨some [], size⟩ (str ++ [0]) := by
    rw [appendAll, appendAll, List.foldl_append, List.foldl_cons, List.foldl_nil]
  rw [hzero, value_appendAll _ _ _ (Nat.zero_le _)]
  simp

theorem complete_sound {str r : List Byte} {size : ℕ}
    (h : Returns (complete (appendAll ⟨some [], size⟩ str)) s r t) :
    r = str ∧ t.input = s.input := by
  rw [complete, value_append_zero] at h
  by_cases hfits : str.length + 1 ≤ size
  · rw [if_pos hfits] at h
    obtain ⟨rfl, rfl⟩ := Prod.mk.inj (Except.ok.inj (Option.some.inj h))
    exact ⟨List.dropLast_concat, rfl⟩
  · rw [if_neg hfits] at h
    exact absurd h (by rw [returns_throw]; exact id)

theorem returns_complete {str : List Byte} {size : ℕ} (h : str.length + 1 ≤ size) (s : Source) :
    ∃ t, Returns (complete (appendAll ⟨some [], size⟩ str)) s str t ∧ t.input = s.input := by
  have hlast : (str ++ [(0 : Byte)]).dropLast = str := List.dropLast_concat
  rw [complete, value_append_zero, if_pos h]
  set pool' : MemoryPool := { s.pool with left :=
    s.pool.left - ((appendAll ⟨some [], size⟩ str).size - (str ++ [0]).length) }
  have hfreeze : Returns (modify fun t : Source => { t with pool := { t.pool with left :=
      t.pool.left - ((appendAll ⟨some [], size⟩ str).size - (str ++ [0]).length) } } :
      Deserializer Unit) s () ⟨s.input, pool'⟩ := rfl
  exact ⟨_, hfreeze.bind (returns_pure.2 ⟨hlast.symm, rfl⟩), rfl⟩

theorem unescapeChar_ne_zero {c : Byte} (h : c ≠ 0) : unescapeChar c ≠ 0 := by
  rw [unescapeChar]
  split_ifs <;> first | decide | exact h

theorem quotedLoop_sound {quote : Byte} {rounds : ℕ} {b b' : StringBuilder}
    (h : Returns (quotedLoop quote rounds b) s b' t) :
    ∃ str text, Quoted quote str text ∧ b' = appendAll b str ∧
      s.input = text ++ quote :: t.input := by
  induction rounds generalizing s b with
  | zero => exact absurd h (by rw [quotedLoop, returns_undefined]; exact id)
  | succ rounds ih =>
      rw [quotedLoop, returns_bind] at h
      obtain ⟨c, u, hc, h⟩ := h
      obtain ⟨rfl, rest, hinput⟩ := returns_current.1 hc
      rw [returns_bind] at h
      obtain ⟨_, v, hmove, h⟩ := h
      rw [returns_move, hinput] at hmove
      subst hmove
      split_ifs at h with hstop hzero hescape
      · obtain ⟨rfl, rfl⟩ := returns_pure.1 h
        exact ⟨[], [], .nil, rfl, by rw [hinput, hstop]; rfl⟩
      · exact absurd h (by rw [returns_throw]; exact id)
      · rw [returns_bind] at h
        obtain ⟨d, w, hd, h⟩ := h
        obtain ⟨rfl, rest', hinput'⟩ := returns_current.1 hd
        dsimp only [List.tail_cons] at hinput'
        subst hinput'
        split_ifs at h with hzero' hu
        · exact absurd h (by rw [returns_throw]; exact id)
        · exact absurd h (by rw [returns_throw]; exact id)
        · dsimp only at h
          rw [if_neg (unescapeChar_ne_zero hzero'), returns_bind] at h
          obtain ⟨_, x, hmove, h⟩ := h
          rw [returns_move] at hmove
          subst hmove
          obtain ⟨str, text, hquoted, rfl, hrest⟩ := ih h
          dsimp only [List.tail_cons] at hrest
          exact ⟨_, _, .escape hzero' hu hquoted, rfl, by rw [hinput, hescape, hrest]; rfl⟩
      · obtain ⟨str, text, hquoted, rfl, hrest⟩ := ih h
        dsimp only [List.tail_cons] at hrest
        exact ⟨_, _, .char hstop hzero hescape hquoted, rfl, by rw [hinput, hrest]; rfl⟩

theorem isQuote_iff {c : Byte} : isQuote c = true ↔ c = 0x27 ∨ c = 0x22 := by simp [isQuote]

theorem returns_quotedLoop {quote : Byte} (hquote : isQuote quote = true) {str text : List Byte}
    (h : Quoted quote str text) {rounds : ℕ} (hrounds : text.length < rounds) (b : StringBuilder)
    (rest : List Byte) (p : MemoryPool) :
    Returns (quotedLoop quote rounds b) ⟨text ++ quote :: rest, p⟩ (appendAll b str) ⟨rest, p⟩ := by
  have hbackslash : (0x5C : Byte) ≠ quote := by
    rintro rfl
    exact absurd hquote (by decide)
  induction h generalizing rounds b with
  | nil =>
      obtain ⟨rounds, rfl⟩ : ∃ r, rounds = r + 1 := ⟨rounds - 1, by omega⟩
      rw [quotedLoop]
      refine (returns_current_cons _ _ _).bind ((returns_move_cons _ _ _).bind ?_)
      rw [if_pos rfl]
      exact returns_pure.2 ⟨rfl, rfl⟩
  | @char c str text hne hzero hescape _ ih =>
      obtain ⟨rounds, rfl⟩ : ∃ r, rounds = r + 1 := ⟨rounds - 1, by omega⟩
      rw [quotedLoop]
      refine (returns_current_cons _ _ _).bind ((returns_move_cons _ _ _).bind ?_)
      rw [if_neg hne, if_neg hzero, if_neg hescape]
      exact ih (by rw [List.length_cons] at hrounds; omega) _
  | @escape c str text hzero hu _ ih =>
      obtain ⟨rounds, rfl⟩ : ∃ r, rounds = r + 1 := ⟨rounds - 1, by omega⟩
      rw [quotedLoop]
      refine (returns_current_cons _ _ _).bind ((returns_move_cons _ _ _).bind ?_)
      rw [if_neg hbackslash, if_neg (by decide), if_pos rfl]
      refine (returns_current_cons _ _ _).bind ?_
      rw [if_neg hzero, if_neg hu]
      dsimp only
      rw [if_neg (unescapeChar_ne_zero hzero)]
      refine (returns_move_cons _ _ _).bind (ih ?_ _)
      simp only [List.length_cons] at hrounds
      omega

/-- **A quoted string** is read as what its text stands for. -/
theorem parseQuotedString_sound {quote : Byte} {rest str : List Byte}
    (hinput : s.input = quote :: rest) (h : Returns parseQuotedString s str t) :
    ∃ text, Quoted quote str text ∧ s.input = quote :: (text ++ quote :: t.input) := by
  rw [parseQuotedString, returns_bind] at h
  obtain ⟨b, u, hstart, h⟩ := h
  obtain ⟨rfl, rfl⟩ := returns_startString.1 hstart
  rw [returns_bind] at h
  obtain ⟨c, v, hc, h⟩ := h
  obtain ⟨rfl, rest', hinput'⟩ := returns_current.1 hc
  dsimp only at hinput'
  obtain ⟨rfl, rfl⟩ := List.cons.inj (hinput.symm.trans hinput')
  rw [returns_bind] at h
  obtain ⟨_, w, hmove, h⟩ := h
  rw [returns_move] at hmove
  subst hmove
  rw [returns_bind] at h
  obtain ⟨b', x, hloop, h⟩ := h
  obtain ⟨str', text, hquoted, rfl, hrest⟩ := quotedLoop_sound hloop
  obtain ⟨rfl, heq⟩ := complete_sound h
  dsimp only at hrest
  rw [hinput, List.tail_cons] at hrest
  exact ⟨text, hquoted, by rw [hinput, hrest, heq]⟩

theorem returns_parseQuotedString {quote : Byte} (hquote : isQuote quote = true)
    {str text : List Byte} (h : Quoted quote str text) {p : MemoryPool}
    (hroom : str.length + 1 ≤ p.right - p.left) (rest : List Byte) :
    ∃ t, Returns parseQuotedString ⟨quote :: (text ++ quote :: rest), p⟩ str t ∧
      t.input = rest := by
  have hloop : Returns (quotedLoop quote ((text ++ quote :: rest).length + 1)
      ⟨some [], p.right - p.left⟩) ⟨text ++ quote :: rest, ⟨p.right, p.right⟩⟩
      (appendAll ⟨some [], p.right - p.left⟩ str) ⟨rest, ⟨p.right, p.right⟩⟩ :=
    returns_quotedLoop hquote h (by simp only [List.length_append, List.length_cons]; omega) _ _ _
  obtain ⟨t, hcomplete, ht⟩ := returns_complete hroom ⟨rest, ⟨p.right, p.right⟩⟩
  refine ⟨t, ?_, ht⟩
  rw [parseQuotedString]
  refine (returns_startString.2 ⟨rfl, rfl⟩).bind ((returns_current_cons _ _ _).bind ?_)
  exact (returns_move_cons _ _ _).bind (Returns.bind (returns_apply.2 hloop) hcomplete)

theorem nonQuotedLoop_sound {rounds : ℕ} {c : Byte} {rest : List Byte} {b b' : StringBuilder}
    (hinput : s.input = c :: rest) (hc : canBeInNonQuotedString c = true)
    (h : Returns (nonQuotedLoop rounds c b) s b' t) :
    ∃ str, (∀ d ∈ str, canBeInNonQuotedString d = true) ∧ b' = appendAll b (c :: str) ∧
      rest = str ++ t.input := by
  induction rounds generalizing s b c rest with
  | zero => exact absurd h (by rw [nonQuotedLoop, returns_undefined]; exact id)
  | succ rounds ih =>
      rw [nonQuotedLoop, returns_bind] at h
      obtain ⟨_, u, hmove, h⟩ := h
      rw [returns_move, hinput] at hmove
      subst hmove
      dsimp only at h
      rw [returns_bind] at h
      obtain ⟨d, v, hd, h⟩ := h
      obtain ⟨rfl, rest', hinput'⟩ := returns_current.1 hd
      dsimp only [List.tail_cons] at hinput'
      subst hinput'
      split_ifs at h with hmore
      · obtain ⟨str, hstr, rfl, rfl⟩ := ih rfl hmore h
        exact ⟨d :: str, List.forall_mem_cons.2 ⟨hmore, hstr⟩, rfl, rfl⟩
      · obtain ⟨rfl, rfl⟩ := returns_pure.1 h
        exact ⟨[], fun d hd => absurd hd List.not_mem_nil, rfl, rfl⟩

theorem returns_nonQuotedLoop {str rest : List Byte}
    (hstr : ∀ d ∈ str, canBeInNonQuotedString d = true)
    (hrest : ∃ d rest', rest = d :: rest' ∧ canBeInNonQuotedString d = false) {rounds : ℕ}
    (hrounds : str.length < rounds) (c : Byte) (b : StringBuilder) (p : MemoryPool) :
    Returns (nonQuotedLoop rounds c b) ⟨c :: (str ++ rest), p⟩ (appendAll b (c :: str))
      ⟨rest, p⟩ := by
  induction str generalizing rounds c b with
  | nil =>
      obtain ⟨rounds, rfl⟩ : ∃ r, rounds = r + 1 := ⟨rounds - 1, by omega⟩
      obtain ⟨d, rest', rfl, hd⟩ := hrest
      rw [nonQuotedLoop]
      refine (returns_move_cons _ _ _).bind ((returns_current_cons _ _ _).bind ?_)
      rw [hd, if_neg Bool.false_ne_true]
      exact returns_pure.2 ⟨rfl, rfl⟩
  | cons d str ih =>
      obtain ⟨rounds, rfl⟩ : ∃ r, rounds = r + 1 := ⟨rounds - 1, by omega⟩
      obtain ⟨hd, hstr'⟩ := List.forall_mem_cons.1 hstr
      rw [nonQuotedLoop]
      refine (returns_move_cons _ _ _).bind ((returns_current_cons _ _ _).bind ?_)
      rw [if_pos hd]
      exact ih hstr' (by rw [List.length_cons] at hrounds; omega) _ _

/-- **A key** is read as what its text stands for. -/
theorem parseKey_sound {key : List Byte} (h : Returns parseKey s key t) :
    ∃ text, Key key text ∧ s.input = text ++ t.input := by
  rw [parseKey, returns_bind] at h
  obtain ⟨c, u, hc, h⟩ := h
  obtain ⟨rfl, rest, hinput⟩ := returns_current.1 hc
  split_ifs at h with hquote
  · obtain ⟨text, hquoted, heq⟩ := parseQuotedString_sound hinput h
    exact ⟨_, .quoted hquote hquoted, by rw [heq]; simp⟩
  · rw [parseNonQuotedString, returns_bind] at h
    obtain ⟨b, v, hstart, h⟩ := h
    obtain ⟨rfl, rfl⟩ := returns_startString.1 hstart
    rw [returns_bind] at h
    obtain ⟨d, w, hd, h⟩ := h
    obtain ⟨rfl, rest', hinput'⟩ := returns_current.1 hd
    split_ifs at h with hzero hbare
    · exact absurd h (by rw [returns_throw]; exact id)
    · rw [returns_bind] at h
      obtain ⟨b', x, hloop, h⟩ := h
      obtain ⟨str, hstr, rfl, rfl⟩ := nonQuotedLoop_sound hinput' hbare hloop
      obtain ⟨rfl, heq⟩ := complete_sound h
      refine ⟨_, .bare (List.cons_ne_nil _ _) (List.forall_mem_cons.2 ⟨hbare, hstr⟩), ?_⟩
      rw [heq]
      exact hinput'
    · exact absurd h (by rw [returns_throw]; exact id)

theorem returns_parseKey {key text : List Byte} (h : Key key text) {p : MemoryPool}
    (hroom : key.length + 1 ≤ p.right - p.left) {rest : List Byte}
    (hrest : ∃ d rest', rest = d :: rest' ∧ canBeInNonQuotedString d = false) :
    ∃ t, Returns parseKey ⟨text ++ rest, p⟩ key t ∧ t.input = rest := by
  rw [parseKey]
  cases h with
  | @quoted quote _ text hquote hquoted =>
      obtain ⟨t, hreturns, ht⟩ := returns_parseQuotedString hquote hquoted hroom rest
      refine ⟨t, ?_, ht⟩
      rw [show quote :: (text ++ [quote]) ++ rest = quote :: (text ++ quote :: rest) by simp]
      refine (returns_current_cons _ _ _).bind ?_
      rwa [if_pos hquote]
  | bare hne hbare =>
      obtain ⟨c, str, rfl⟩ := List.exists_cons_of_ne_nil hne
      obtain ⟨hc, hstr⟩ := List.forall_mem_cons.1 hbare
      have hquote : ¬isQuote c = true := fun h => by
        rcases isQuote_iff.1 h with rfl | rfl <;> exact absurd hc (by decide)
      have hloop : Returns (nonQuotedLoop ((c :: (str ++ rest)).length + 1) c
          ⟨some [], p.right - p.left⟩) ⟨c :: (str ++ rest), ⟨p.right, p.right⟩⟩
          (appendAll ⟨some [], p.right - p.left⟩ (c :: str)) ⟨rest, ⟨p.right, p.right⟩⟩ :=
        returns_nonQuotedLoop hstr hrest
          (by simp only [List.length_append, List.length_cons]; omega) _ _ _
      obtain ⟨t, hcomplete, ht⟩ := returns_complete hroom ⟨rest, ⟨p.right, p.right⟩⟩
      refine ⟨t, (returns_current_cons _ _ _).bind ?_, ht⟩
      rw [if_neg hquote, parseNonQuotedString]
      refine (returns_startString.2 ⟨rfl, rfl⟩).bind ((returns_current_cons _ _ _).bind ?_)
      rw [if_neg (ne_zero_of_canBe hc), if_pos hc]
      exact Returns.bind (returns_apply.2 hloop) hcomplete

/-! Tokens. -/

/-- **The buffer of a token** is filled as far as characters come that can belong to it. -/
theorem tokenLoop_sound {room : ℕ} {buffer token : List Byte}
    (h : Returns (tokenLoop room buffer) s token t) :
    t.pool = s.pool ∧ ∃ more, token = buffer ++ more ∧ s.input = more ++ t.input ∧
      (∀ c ∈ more, canBeInNonQuotedString c = true) ∧ more.length ≤ room ∧
      (more.length = room ∨ ∀ c ∈ t.input.head?, canBeInNonQuotedString c = false) := by
  induction room generalizing s buffer with
  | zero =>
      rw [tokenLoop, returns_bind] at h
      obtain ⟨c, u, hc, h⟩ := h
      obtain ⟨rfl, -⟩ := returns_current.1 hc
      obtain ⟨rfl, rfl⟩ := returns_pure.1 h
      exact ⟨rfl, [], (List.append_nil _).symm, rfl, fun d hd => absurd hd List.not_mem_nil,
        Nat.le_refl _, Or.inl rfl⟩
  | succ room ih =>
      rw [tokenLoop, returns_bind] at h
      obtain ⟨c, u, hc, h⟩ := h
      obtain ⟨rfl, rest, hinput⟩ := returns_current.1 hc
      dsimp only at h
      split_ifs at h with hmore
      · rw [returns_bind] at h
        obtain ⟨_, v, hmove, h⟩ := h
        rw [returns_move, hinput] at hmove
        subst hmove
        obtain ⟨hpool, more, rfl, hrest, hchars, hlen, hend⟩ := ih h
        dsimp only [List.tail_cons] at hrest
        refine ⟨hpool, c :: more, by simp, by rw [hinput, hrest]; rfl,
          List.forall_mem_cons.2 ⟨hmore, hchars⟩, Nat.succ_le_succ hlen, ?_⟩
        rcases hend with hend | hend
        · exact Or.inl (congrArg _ hend)
        · exact Or.inr hend
      · obtain ⟨rfl, rfl⟩ := returns_pure.1 h
        refine ⟨rfl, [], (List.append_nil _).symm, rfl, fun d hd => absurd hd List.not_mem_nil,
          Nat.zero_le _, Or.inr ?_⟩
        rw [hinput]
        rintro d hd
        obtain rfl := Option.some.inj hd
        exact Bool.eq_false_iff.2 hmore

theorem returns_tokenLoop {more rest : List Byte} (hrest : rest ≠ [])
    (hchars : ∀ c ∈ more, canBeInNonQuotedString c = true) {room : ℕ} (hlen : more.length ≤ room)
    (hend : more.length = room ∨ ∀ c ∈ rest.head?, canBeInNonQuotedString c = false)
    (buffer : List Byte) (p : MemoryPool) :
    Returns (tokenLoop room buffer) ⟨more ++ rest, p⟩ (buffer ++ more) ⟨rest, p⟩ := by
  induction more generalizing room buffer with
  | nil =>
      obtain ⟨c, rest, rfl⟩ := List.exists_cons_of_ne_nil hrest
      rw [tokenLoop]
      refine (returns_current_cons _ _ _).bind ?_
      cases room with
      | zero => exact returns_pure.2 ⟨List.append_nil _, rfl⟩
      | succ room =>
          have hc : canBeInNonQuotedString c = false := by
            rcases hend with hend | hend
            · cases hend
            · exact hend c rfl
          dsimp only
          rw [hc, if_neg Bool.false_ne_true]
          exact returns_pure.2 ⟨List.append_nil _, rfl⟩
  | cons c more ih =>
      obtain ⟨room, rfl⟩ : ∃ r, room = r + 1 := ⟨room - 1, by rw [List.length_cons] at hlen; omega⟩
      obtain ⟨hc, hchars'⟩ := List.forall_mem_cons.1 hchars
      rw [tokenLoop]
      refine (returns_current_cons _ _ _).bind ?_
      dsimp only
      rw [if_pos hc, show buffer ++ c :: more = buffer ++ [c] ++ more by simp]
      refine (returns_move_cons _ _ _).bind (ih hchars' (Nat.le_of_succ_le_succ hlen) ?_ _)
      exact hend.imp (fun h => Nat.succ.inj h) id

/-- **A token** is read as what it stands for. -/
theorem returns_tokenValue {token : List Byte} {v : VariantData} :
    Returns (tokenValue token) s v t ↔ Denotes v token ∧ t = s := by
  rw [tokenValue]
  constructor
  · intro h
    split_ifs at h with htrue hlen hfalse hlen hnull hlen
    · obtain ⟨rfl, rfl⟩ := returns_pure.1 h
      exact ⟨.true htrue hlen, rfl⟩
    · exact absurd h (by rw [returns_throw]; exact id)
    · obtain ⟨rfl, rfl⟩ := returns_pure.1 h
      exact ⟨.false hfalse hlen, rfl⟩
    · exact absurd h (by rw [returns_throw]; exact id)
    · obtain ⟨rfl, rfl⟩ := returns_pure.1 h
      exact ⟨.null hnull hlen, rfl⟩
    · exact absurd h (by rw [returns_throw]; exact id)
    · cases hnumber : parseNumber token with
      | none =>
          rw [hnumber] at h
          exact absurd h (by rw [returns_undefined]; exact id)
      | some n =>
          rw [hnumber] at h
          cases n with
          | null => exact absurd h (by rw [returns_throw]; exact id)
          | negativeInteger value =>
              obtain ⟨rfl, rfl⟩ := returns_pure.1 h
              exact ⟨.number htrue hfalse hnull hnumber rfl, rfl⟩
          | positiveInteger value =>
              obtain ⟨rfl, rfl⟩ := returns_pure.1 h
              exact ⟨.number htrue hfalse hnull hnumber rfl, rfl⟩
          | float value =>
              obtain ⟨rfl, rfl⟩ := returns_pure.1 h
              exact ⟨.number htrue hfalse hnull hnumber rfl, rfl⟩
  · rintro ⟨h, rfl⟩
    cases h with
    | true hhead hlen =>
        rw [hhead, if_pos rfl, if_pos hlen]
        exact returns_pure.2 ⟨rfl, rfl⟩
    | false hhead hlen =>
        rw [hhead, if_neg (by decide), if_pos rfl, if_pos hlen]
        exact returns_pure.2 ⟨rfl, rfl⟩
    | null hhead hlen =>
        rw [hhead, if_neg (by decide), if_neg (by decide), if_pos rfl, if_pos hlen]
        exact returns_pure.2 ⟨rfl, rfl⟩
    | @number _ n _ htrue hfalse hnull hnumber hvalue =>
        rw [if_neg htrue, if_neg hfalse, if_neg hnull, hnumber]
        cases n with
        | null => cases hvalue
        | negativeInteger value => exact returns_pure.2 ⟨(Option.some.inj hvalue).symm, rfl⟩
        | positiveInteger value => exact returns_pure.2 ⟨(Option.some.inj hvalue).symm, rfl⟩
        | float value => exact returns_pure.2 ⟨(Option.some.inj hvalue).symm, rfl⟩

end Deserializer
end Json
end Remora
