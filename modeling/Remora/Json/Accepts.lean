/-
# What the deserializer accepts

Values are put together from the texts of `Remora.Json.Text`, with layout around every
element and every member (`Written`).  The deserializer reads a value from a text exactly
when the text is one that stands for the value, the value is not nested deeper than the
limit, and its memory usage fits in the pool (`deserializeJson_iff`).

From a text to a value the induction is on the derivation of the text; what the pool has
left for the rest of a collection is known since reading an element takes exactly its
memory usage.  The other way it is on the nesting limit and on the rounds of the loops.
-/

import Remora.Json.Text

namespace Remora
namespace Json

open Basis Program

theorem Layout.append {lead lead' : List Byte} (h : Layout lead) (h' : Layout lead') :
    Layout (lead ++ lead') := by
  induction h with
  | nil => exact h'
  | space hspace _ ih => exact .space hspace ih
  | @block body rest hzero hinner _ ih =>
      rw [show (0x2F :: 0x2A :: (body ++ 0x2A :: 0x2F :: rest)) ++ lead' =
        0x2F :: 0x2A :: (body ++ 0x2A :: 0x2F :: (rest ++ lead')) by simp]
      exact .block hzero hinner ih
  | @trailing body rest hzero hend _ ih =>
      rw [show (0x2F :: 0x2F :: (body ++ 0x0A :: rest)) ++ lead' =
        0x2F :: 0x2F :: (body ++ 0x0A :: (rest ++ lead')) by simp]
      exact .trailing hzero hend ih

theorem VariantData.nesting_le_maxElementNesting {v : VariantData} {slots : List VariantData}
    (h : v ∈ slots) : v.nesting ≤ maxElementNesting slots := by
  induction slots with
  | nil => cases h
  | cons w slots ih =>
      rw [maxElementNesting]
      rcases List.mem_cons.1 h with rfl | h
      · exact Nat.le_max_left _ _
      · exact Nat.le_trans (ih h) (Nat.le_max_right _ _)

theorem VariantData.nesting_le_maxMemberNesting {m : List Byte × VariantData}
    {slots : List (List Byte × VariantData)} (h : m ∈ slots) :
    m.2.nesting ≤ maxMemberNesting slots := by
  induction slots with
  | nil => cases h
  | cons w slots ih =>
      rw [maxMemberNesting]
      rcases List.mem_cons.1 h with rfl | h
      · exact Nat.le_max_left _ _
      · exact Nat.le_trans (ih h) (Nat.le_max_right _ _)

/-- An element of an array, as it is written. -/
structure Element where
  lead : List Byte
  body : List Byte
  trail : List Byte
  value : VariantData

namespace Element

/-- The text of an element, with what stands around it. -/
def text (e : Element) : List Byte := e.lead ++ (e.body ++ e.trail)

/-- There is nothing but layout around it. -/
def Spaced (e : Element) : Prop := Layout e.lead ∧ Layout e.trail

end Element

/-- A member of an object, as it is written. -/
structure Member where
  start : List Byte
  name : List Byte
  gap : List Byte
  key : List Byte
  element : Element

namespace Member

/-- The text of a member from its key on. -/
def pair (m : Member) : List Byte := m.name ++ (m.gap ++ 0x3A :: m.element.text)

/-- The text of a member, with what stands around it. -/
def text (m : Member) : List Byte := m.start ++ m.pair

/-- What goes into the slot. -/
def slot (m : Member) : List Byte × VariantData := (m.key, m.element.value)

/-- There is a key, and nothing but layout around it and the value. -/
def Spaced (m : Member) : Prop :=
  Layout m.start ∧ Key m.key m.name ∧ Layout m.gap ∧ m.element.Spaced

end Member

/-- What follows the first part of a collection: the other parts, a comma before each, and
what closes the collection. -/
def following (close : Byte) : List (List Byte) → List Byte
  | [] => [close]
  | text :: texts => 0x2C :: (text ++ following close texts)

open Deserializer in
/-- A value, and how it is written. -/
inductive Written : VariantData → List Byte → Prop where
  | token {v : VariantData} {text : List Byte} : Token v text → Written v text
  | string {quote : Byte} {str text : List Byte} : isQuote quote = true → Quoted quote str text →
      Written (.ownedString str) (quote :: (text ++ [quote]))
  | emptyArray {lead : List Byte} : Layout lead → Written (.array []) (0x5B :: (lead ++ [0x5D]))
  | array {e : Element} {es : List Element} : (∀ x ∈ e :: es, x.Spaced) →
      (∀ x ∈ e :: es, Written x.value x.body) →
      Written (.array ((e :: es).map Element.value))
        (0x5B :: (e.text ++ following 0x5D (es.map Element.text)))
  | emptyObject {lead : List Byte} : Layout lead → Written (.object []) (0x7B :: (lead ++ [0x7D]))
  | object {m : Member} {ms : List Member} : (∀ x ∈ m :: ms, x.Spaced) →
      (∀ x ∈ m :: ms, Written x.element.value x.element.body) →
      Written (.object ((m :: ms).map Member.slot))
        (0x7B :: (m.text ++ following 0x7D (ms.map Member.text)))

theorem length_following (close : Byte) (texts : List (List Byte)) :
    texts.length < (following close texts).length := by
  induction texts with
  | nil => exact Nat.one_pos
  | cons text texts ih =>
      rw [following, List.length_cons, List.length_cons, List.length_append]
      omega

theorem Ended.append {rest : List Byte} (h : Ended rest) (text : List Byte) :
    Ended (text ++ rest) := by
  obtain ⟨more, rfl⟩ := h
  exact ⟨text ++ more, (List.append_assoc _ _ _).symm⟩

theorem Ended.ne_nil {rest : List Byte} (h : Ended rest) : rest ≠ [] := by
  obtain ⟨more, rfl⟩ := h
  simp

theorem Token.ne_nil {v : VariantData} {text : List Byte} (h : Token v text) : text ≠ [] := by
  rintro rfl
  cases h.denotes with
  | true hhead _ => exact absurd hhead (by decide)
  | false hhead _ => exact absurd hhead (by decide)
  | null hhead _ => exact absurd hhead (by decide)
  | number _ _ _ hnumber hvalue =>
      obtain rfl := Option.some.inj hnumber
      cases hvalue

namespace Deserializer

variable {s t : Source}

/-! What may come next. -/

theorem canBe_head_layout {lead : List Byte} (h : Layout lead) :
    ∀ c ∈ lead.head?, canBeInNonQuotedString c = false := by
  cases h with
  | nil => exact fun c hc => (by cases hc)
  | space hspace _ =>
      rintro c hc
      obtain rfl := Option.some.inj hc
      rcases hspace with rfl | rfl | rfl | rfl <;> decide
  | block _ _ _ =>
      rintro c hc
      obtain rfl := Option.some.inj hc
      decide
  | trailing _ _ _ =>
      rintro c hc
      obtain rfl := Option.some.inj hc
      decide

/-- Layout and a delimiter end a token. -/
theorem head_layout_append {lead : List Byte} (h : Layout lead) {c : Byte}
    (hc : canBeInNonQuotedString c = false) (rest : List Byte) :
    ∃ d rest', lead ++ c :: rest = d :: rest' ∧ canBeInNonQuotedString d = false := by
  cases lead with
  | nil => exact ⟨c, rest, rfl, hc⟩
  | cons d lead => exact ⟨d, lead ++ c :: rest, rfl, canBe_head_layout h d rfl⟩

theorem stops_layout_append {lead : List Byte} (h : Layout lead) {c : Byte}
    (hc : canBeInNonQuotedString c = false) (text rest : List Byte) :
    Stops text (lead ++ c :: rest) := by
  obtain ⟨d, rest', heq, hd⟩ := head_layout_append h hc rest
  rw [heq]
  rintro -
  refine Or.inr fun e he => ?_
  obtain rfl := Option.some.inj he
  exact hd

/-- A text that does not begin like a token ends by itself. -/
theorem stops_of_head {c : Byte} (hc : canBeInNonQuotedString c = false) (text rest : List Byte) :
    Stops (c :: text) rest := by
  intro hchars
  rw [hchars c (List.mem_cons_self ..)] at hc
  cases hc

theorem solid_cons {c : Byte} (h : canBeInNonQuotedString c = true ∨ c ∈ [0x22, 0x27, 0x5B, 0x7B,
    0x5D, 0x7D, 0x2C, 0x3A]) (rest : List Byte) : Solid (c :: rest) := by
  have hne : ∀ d : Byte, canBeInNonQuotedString d = false →
      d ∉ [0x22, 0x27, 0x5B, 0x7B, 0x5D, 0x7D, 0x2C, 0x3A] → c ≠ d := by
    rintro d hd hnot rfl
    rcases h with h | h
    · rw [h] at hd
      cases hd
    · exact hnot h
  refine ⟨c, rest, rfl, ?_, hne _ (by decide) (by decide), hne _ (by decide) (by decide)⟩
  rintro (h | h | h | h) <;> exact hne _ (by decide) (by decide) h

/-- How keys and values begin: not with layout, and not with what closes a collection. -/
def Begins (text : List Byte) : Prop :=
  ∃ c text', text = c :: text' ∧
    (canBeInNonQuotedString c = true ∨ c ∈ [(0x22 : Byte), 0x27, 0x5B, 0x7B])

theorem Begins.solid {text : List Byte} (h : Begins text) (rest : List Byte) :
    Solid (text ++ rest) := by
  obtain ⟨c, text, rfl, hc⟩ := h
  refine solid_cons (hc.imp id fun hc => ?_) _
  exact List.mem_append_left [0x5D, 0x7D, 0x2C, 0x3A] hc

theorem Begins.returns_eat {text : List Byte} (h : Begins text) {close : Byte}
    (hclose : close ∈ [(0x5D : Byte), 0x7D]) (rest : List Byte) (p : MemoryPool) :
    Returns (eat close) ⟨text ++ rest, p⟩ false ⟨text ++ rest, p⟩ := by
  obtain ⟨c, text, rfl, hc⟩ := h
  refine returns_eat_false ?_ _ _
  rintro rfl
  rcases hc with hc | hc
  · rcases List.mem_cons.1 hclose with rfl | hclose
    · exact absurd hc (by decide)
    · rw [List.mem_singleton.1 hclose] at hc
      exact absurd hc (by decide)
  · rcases List.mem_cons.1 hclose with rfl | hclose
    · exact absurd hc (by decide)
    · rw [List.mem_singleton.1 hclose] at hc
      exact absurd hc (by decide)

theorem begins_quote {quote : Byte} (h : isQuote quote = true) (text : List Byte) :
    Begins (quote :: text) := by
  refine ⟨quote, text, rfl, Or.inr ?_⟩
  rcases isQuote_iff.1 h with rfl | rfl <;> decide

theorem begins_key {key name : List Byte} (h : Key key name) : Begins name := by
  cases h with
  | quoted hquote _ => exact begins_quote hquote _
  | bare hne hbare =>
      obtain ⟨c, name, rfl⟩ := List.exists_cons_of_ne_nil hne
      exact ⟨c, name, rfl, Or.inl (hbare c (List.mem_cons_self ..))⟩

theorem begins_written {v : VariantData} {text : List Byte} (h : Written v text) :
    Begins text := by
  cases h with
  | token htoken =>
      obtain ⟨c, text, rfl⟩ := List.exists_cons_of_ne_nil htoken.ne_nil
      exact ⟨c, text, rfl, Or.inl (htoken.chars c (List.mem_cons_self ..))⟩
  | string hquote _ => exact begins_quote hquote _
  | emptyArray _ => exact ⟨_, _, rfl, Or.inr (by decide)⟩
  | array _ _ => exact ⟨_, _, rfl, Or.inr (by decide)⟩
  | emptyObject _ => exact ⟨_, _, rfl, Or.inr (by decide)⟩
  | object _ _ => exact ⟨_, _, rfl, Or.inr (by decide)⟩

/-! From what is returned to the text. -/

/-- What reads a value reads a text of it. -/
def ReadsOnly (parse : Deserializer VariantData) : Prop :=
  ∀ (s t : Source) (v : VariantData), Returns parse s v t →
    ∃ lead text, Layout lead ∧ Written v text ∧ Stops text t.input ∧
      s.input = lead ++ (text ++ t.input)

theorem addSlot_sound {u : Unit} (h : Returns addSlot s u t) : t.input = s.input := by
  rw [Returns, addSlot_apply] at h
  split_ifs at h
  · rw [← (Prod.mk.inj (Except.ok.inj (Option.some.inj h))).2]
  · cases Option.some.inj h

theorem parseValue_sound {v : VariantData} (h : Returns parseValue s v t) :
    ∃ text, Written v text ∧ Stops text t.input ∧ s.input = text ++ t.input := by
  rw [parseValue, returns_bind] at h
  obtain ⟨c, u, hc, h⟩ := h
  obtain ⟨rfl, rest, hinput⟩ := returns_current.1 hc
  split_ifs at h with hquote
  · rw [parseStringValue, returns_bind] at h
    obtain ⟨str, w, hstring, h⟩ := h
    obtain ⟨rfl, rfl⟩ := returns_pure.1 h
    obtain ⟨text, hquoted, heq⟩ := parseQuotedString_sound hinput hstring
    refine ⟨_, .string hquote hquoted, stops_of_head ?_ _ _, by rw [heq]; simp⟩
    rcases isQuote_iff.1 hquote with rfl | rfl <;> decide
  · rw [parseNumericValue, returns_bind] at h
    obtain ⟨token, w, htoken, h⟩ := h
    obtain ⟨-, more, hmore, heq, hchars, hlen, hend⟩ := tokenLoop_sound htoken
    obtain ⟨hdenotes, rfl⟩ := returns_tokenValue.1 h
    rw [hmore, List.nil_append] at hdenotes
    exact ⟨more, .token ⟨hchars, hlen, hdenotes⟩, fun _ => hend, heq⟩

/-- **The elements of an array**, from the first one on. -/
theorem arrayLoop_sound {parse : Deserializer VariantData} (hparse : ReadsOnly parse)
    {rounds : ℕ} {slots : List VariantData} {v : VariantData}
    (h : Returns (arrayLoop parse rounds slots) s v t) :
    ∃ (e : Element) (es : List Element), (∀ x ∈ e :: es, x.Spaced) ∧
      (∀ x ∈ e :: es, Written x.value x.body) ∧
      v = .array (slots ++ (e :: es).map Element.value) ∧
      s.input = e.text ++ (following 0x5D (es.map Element.text) ++ t.input) := by
  induction rounds generalizing s slots with
  | zero => exact absurd h (by rw [arrayLoop, returns_undefined]; exact id)
  | succ rounds ih =>
      rw [arrayLoop, returns_bind] at h
      obtain ⟨_, s₁, hslot, h⟩ := h
      rw [returns_bind] at h
      obtain ⟨value, s₂, hvalue, h⟩ := h
      rw [returns_bind] at h
      obtain ⟨_, s₃, hskip, h⟩ := h
      rw [returns_bind] at h
      obtain ⟨close, s₄, hclose, h⟩ := h
      obtain ⟨lead, body, hlead, hwritten, -, hread⟩ := hparse _ _ _ hvalue
      obtain ⟨-, -, trail, htrail, hrest⟩ := skipSpacesAndComments_sound hskip
      rw [addSlot_sound hslot] at hread
      set e : Element := ⟨lead, body, trail, value⟩
      have hinput : s.input = e.text ++ s₃.input := by
        rw [hread, hrest, Element.text]
        simp [e]
      cases close with
      | true =>
          obtain ⟨-, heq⟩ := eat_true_sound hclose
          obtain ⟨rfl, rfl⟩ := returns_pure.1 h
          refine ⟨e, [], List.forall_mem_singleton.2 ⟨hlead, htrail⟩,
            List.forall_mem_singleton.2 hwritten, rfl, ?_⟩
          rw [hinput, heq]
          rfl
      | false =>
          obtain ⟨rfl, -⟩ := eat_false_sound hclose
          rw [if_neg Bool.false_ne_true, returns_bind] at h
          obtain ⟨more, s₅, hmore, h⟩ := h
          cases more with
          | false => exact absurd h (by rw [if_neg Bool.false_ne_true, returns_throw]; exact id)
          | true =>
              obtain ⟨-, heq⟩ := eat_true_sound hmore
              rw [if_pos rfl] at h
              obtain ⟨e', es, hspaced, hes, rfl, hrest'⟩ := ih h
              refine ⟨e, e' :: es, List.forall_mem_cons.2 ⟨⟨hlead, htrail⟩, hspaced⟩,
                List.forall_mem_cons.2 ⟨hwritten, hes⟩, by simp [e], ?_⟩
              rw [hinput, heq, hrest']
              simp [following]

theorem parseArray_sound {parse : Option (Deserializer VariantData)}
    (hparse : ∀ p ∈ parse, ReadsOnly p) {v : VariantData} (h : Returns (parseArray parse) s v t) :
    ∃ text, Written v text ∧ Stops text t.input ∧ s.input = text ++ t.input := by
  cases parse with
  | none => exact absurd h (by rw [parseArray, returns_throw]; exact id)
  | some parse =>
      rw [parseArray, returns_bind] at h
      obtain ⟨bracket, s₁, hbracket, h⟩ := h
      cases bracket with
      | false => exact absurd h (by rw [if_neg Bool.false_ne_true, returns_throw]; exact id)
      | true =>
          obtain ⟨-, hopen⟩ := eat_true_sound hbracket
          rw [if_pos rfl, returns_bind] at h
          obtain ⟨_, s₂, hskip, h⟩ := h
          obtain ⟨-, -, lead, hlead, hrest⟩ := skipSpacesAndComments_sound hskip
          rw [returns_bind] at h
          obtain ⟨close, s₃, hclose, h⟩ := h
          cases close with
          | true =>
              obtain ⟨-, heq⟩ := eat_true_sound hclose
              obtain ⟨rfl, rfl⟩ := returns_pure.1 h
              refine ⟨_, .emptyArray hlead, stops_of_head (by decide) _ _, ?_⟩
              rw [hopen, hrest, heq]
              simp
          | false =>
              obtain ⟨rfl, -⟩ := eat_false_sound hclose
              rw [if_neg Bool.false_ne_true] at h
              have hloop := (returns_apply
                (g := fun u : Source => arrayLoop parse (u.input.length + 1) [])).1 h
              obtain ⟨e, es, hspaced, hes, rfl, heq⟩ := arrayLoop_sound (hparse _ rfl) hloop
              -- what stands before the first element has been skipped once already
              set e' : Element := { e with lead := lead ++ e.lead }
              obtain ⟨he, hspaced'⟩ := List.forall_mem_cons.1 hspaced
              obtain ⟨hbody, hes'⟩ := List.forall_mem_cons.1 hes
              have hwritten : Written (.array ((e' :: es).map Element.value))
                  (0x5B :: (e'.text ++ following 0x5D (es.map Element.text))) :=
                .array (List.forall_mem_cons.2 ⟨⟨hlead.append he.1, he.2⟩, hspaced'⟩)
                  (List.forall_mem_cons.2 ⟨hbody, hes'⟩)
              refine ⟨_, hwritten, stops_of_head (by decide) _ _, ?_⟩
              rw [hopen, hrest, heq]
              simp [Element.text, e']

/-- **The members of an object**, from the key of the first one on. -/
theorem objectLoop_sound {parse : Deserializer VariantData} (hparse : ReadsOnly parse)
    {rounds : ℕ} {slots : List (List Byte × VariantData)} {v : VariantData}
    (h : Returns (objectLoop parse rounds slots) s v t) :
    ∃ (m : Member) (ms : List Member), (∀ x ∈ m :: ms, x.Spaced) ∧
      (∀ x ∈ m :: ms, Written x.element.value x.element.body) ∧
      v = .object (slots ++ (m :: ms).map Member.slot) ∧
      s.input = m.pair ++ (following 0x7D (ms.map Member.text) ++ t.input) := by
  induction rounds generalizing s slots with
  | zero => exact absurd h (by rw [objectLoop, returns_undefined]; exact id)
  | succ rounds ih =>
      rw [objectLoop, returns_bind] at h
      obtain ⟨_, s₁, hslot, h⟩ := h
      rw [returns_bind] at h
      obtain ⟨key, s₂, hkey, h⟩ := h
      rw [returns_bind] at h
      obtain ⟨_, s₃, hgap, h⟩ := h
      rw [returns_bind] at h
      obtain ⟨colon, s₄, hcolon, h⟩ := h
      cases colon with
      | false => exact absurd h (by rw [if_neg Bool.false_ne_true, returns_throw]; exact id)
      | true =>
          rw [if_pos rfl, returns_bind] at h
          obtain ⟨value, s₅, hvalue, h⟩ := h
          rw [returns_bind] at h
          obtain ⟨_, s₆, hskip, h⟩ := h
          rw [returns_bind] at h
          obtain ⟨close, s₇, hclose, h⟩ := h
          obtain ⟨name, hname, hinput⟩ := parseKey_sound hkey
          obtain ⟨-, -, gap, hgap, hgapText⟩ := skipSpacesAndComments_sound hgap
          obtain ⟨-, hcolon⟩ := eat_true_sound hcolon
          obtain ⟨lead, body, hlead, hwritten, -, hread⟩ := hparse _ _ _ hvalue
          obtain ⟨-, -, trail, htrail, hrest⟩ := skipSpacesAndComments_sound hskip
          rw [addSlot_sound hslot, hgapText, hcolon, hread, hrest] at hinput
          cases close with
          | true =>
              obtain ⟨-, heq⟩ := eat_true_sound hclose
              obtain ⟨rfl, rfl⟩ := returns_pure.1 h
              refine ⟨⟨[], name, gap, key, lead, body, trail, value⟩, [],
                List.forall_mem_singleton.2 ⟨.nil, hname, hgap, hlead, htrail⟩,
                List.forall_mem_singleton.2 hwritten, rfl, ?_⟩
              rw [hinput, heq]
              simp [Member.pair, Element.text, following]
          | false =>
              obtain ⟨rfl, -⟩ := eat_false_sound hclose
              rw [if_neg Bool.false_ne_true, returns_bind] at h
              obtain ⟨more, s₈, hmore, h⟩ := h
              cases more with
              | false => exact absurd h (by rw [if_neg Bool.false_ne_true, returns_throw]; exact id)
              | true =>
                  obtain ⟨-, heq⟩ := eat_true_sound hmore
                  rw [if_pos rfl, returns_bind] at h
                  obtain ⟨_, s₉, hskip', h⟩ := h
                  obtain ⟨-, -, start, hstart, hrest'⟩ := skipSpacesAndComments_sound hskip'
                  obtain ⟨m, ms, hspaced, hms, rfl, htext⟩ := ih h
                  obtain ⟨⟨hmstart, hm⟩, hspaced'⟩ := List.forall_mem_cons.1 hspaced
                  obtain ⟨hbody, hms'⟩ := List.forall_mem_cons.1 hms
                  refine ⟨⟨[], name, gap, key, lead, body, trail, value⟩,
                    { m with start := start } :: ms,
                    List.forall_mem_cons.2 ⟨⟨.nil, hname, hgap, hlead, htrail⟩,
                      List.forall_mem_cons.2 ⟨⟨hstart, hm⟩, hspaced'⟩⟩,
                    List.forall_mem_cons.2 ⟨hwritten, List.forall_mem_cons.2 ⟨hbody, hms'⟩⟩,
                    by simp [Member.slot], ?_⟩
                  rw [hinput, heq, hrest', htext]
                  simp [Member.text, Member.pair, Element.text, following]

theorem parseObject_sound {parse : Option (Deserializer VariantData)}
    (hparse : ∀ p ∈ parse, ReadsOnly p) {v : VariantData} (h : Returns (parseObject parse) s v t) :
    ∃ text, Written v text ∧ Stops text t.input ∧ s.input = text ++ t.input := by
  cases parse with
  | none => exact absurd h (by rw [parseObject, returns_throw]; exact id)
  | some parse =>
      rw [parseObject, returns_bind] at h
      obtain ⟨brace, s₁, hbrace, h⟩ := h
      cases brace with
      | false => exact absurd h (by rw [if_neg Bool.false_ne_true, returns_throw]; exact id)
      | true =>
          obtain ⟨-, hopen⟩ := eat_true_sound hbrace
          rw [if_pos rfl, returns_bind] at h
          obtain ⟨_, s₂, hskip, h⟩ := h
          obtain ⟨-, -, lead, hlead, hrest⟩ := skipSpacesAndComments_sound hskip
          rw [returns_bind] at h
          obtain ⟨close, s₃, hclose, h⟩ := h
          cases close with
          | true =>
              obtain ⟨-, heq⟩ := eat_true_sound hclose
              obtain ⟨rfl, rfl⟩ := returns_pure.1 h
              refine ⟨_, .emptyObject hlead, stops_of_head (by decide) _ _, ?_⟩
              rw [hopen, hrest, heq]
              simp
          | false =>
              obtain ⟨rfl, -⟩ := eat_false_sound hclose
              rw [if_neg Bool.false_ne_true] at h
              have hloop := (returns_apply
                (g := fun u : Source => objectLoop parse (u.input.length + 1) [])).1 h
              obtain ⟨m, ms, hspaced, hms, rfl, heq⟩ := objectLoop_sound (hparse _ rfl) hloop
              obtain ⟨⟨-, hm⟩, hspaced'⟩ := List.forall_mem_cons.1 hspaced
              obtain ⟨hbody, hms'⟩ := List.forall_mem_cons.1 hms
              have hwritten : Written (.object (({ m with start := lead } :: ms).map Member.slot))
                  (0x7B :: (Member.text { m with start := lead } ++
                    following 0x7D (ms.map Member.text))) :=
                .object (List.forall_mem_cons.2 ⟨⟨hlead, hm⟩, hspaced'⟩)
                  (List.forall_mem_cons.2 ⟨hbody, hms'⟩)
              refine ⟨_, hwritten, stops_of_head (by decide) _ _, ?_⟩
              rw [hopen, hrest, heq]
              simp [Member.text, Member.pair]

theorem parseWith_sound {parse : Option (Deserializer VariantData)}
    (hparse : ∀ p ∈ parse, ReadsOnly p) : ReadsOnly (parseWith parse) := by
  intro s t v h
  rw [parseWith, returns_bind] at h
  obtain ⟨_, s₁, hskip, h⟩ := h
  obtain ⟨-, -, lead, hlead, hrest⟩ := skipSpacesAndComments_sound hskip
  rw [returns_bind] at h
  obtain ⟨c, s₂, hc, h⟩ := h
  obtain ⟨heq, -⟩ := returns_current.1 hc
  subst s₂
  have htext : ∃ text, Written v text ∧ Stops text t.input ∧ s₁.input = text ++ t.input := by
    split_ifs at h
    · exact parseArray_sound hparse h
    · exact parseObject_sound hparse h
    · exact parseValue_sound h
  obtain ⟨text, hwritten, hstops, heq⟩ := htext
  exact ⟨lead, text, hlead, hwritten, hstops, by rw [hrest, heq]⟩

/-- **What is returned was written there.** -/
theorem parse_sound (nestingLimit : ℕ) : ReadsOnly (parse nestingLimit) := by
  induction nestingLimit with
  | zero => exact parseWith_sound fun p hp => (by cases hp)
  | succ nestingLimit ih =>
      refine parseWith_sound fun p hp => ?_
      obtain rfl := Option.some.inj hp
      exact ih

/-! From a text to what is returned. -/

/-- A value is read from a text of it, whatever stands around it and whatever has been taken
from the pool, as long as the value fits. -/
def Reads (parse : Deserializer VariantData) (v : VariantData) (text : List Byte) : Prop :=
  ∀ (lead rest : List Byte) (p : MemoryPool), Layout lead → Stops text rest → Ended rest →
    p.left ≤ p.right → v.memoryUsage ≤ p.right - p.left →
    ∃ t, Returns parse ⟨lead ++ (text ++ rest), p⟩ v t ∧ t.input = rest

variable {parse : Deserializer VariantData} {d : ℕ} {p : MemoryPool} {rest : List Byte}

/-- What reading a value leaves. -/
theorem Reads.takes {v : VariantData} {text : List Byte} (h : Reads parse v text)
    (hsafe : SafelyReads parse d) {lead : List Byte} (hlead : Layout lead)
    (hstops : Stops text rest) (hended : Ended rest) (hroom : p.left ≤ p.right)
    (hfits : v.memoryUsage ≤ p.right - p.left) :
    ∃ p', Returns parse ⟨lead ++ (text ++ rest), p⟩ v ⟨rest, p'⟩ ∧ Takes p p' v.memoryUsage := by
  obtain ⟨⟨input, p'⟩, hreturns, rfl⟩ := h lead rest p hlead hstops hended hroom hfits
  have hread : ReadValue d ⟨lead ++ (text ++ input), p⟩ v ⟨input, p'⟩ :=
    (hsafe _ ((hended.append text).append lead) hroom).of_returns hreturns
  exact ⟨p', hreturns, hread.1.takes⟩

theorem returns_addSlot (hfits : VARIANT_SLOT ≤ p.right - p.left) (hroom : p.left ≤ p.right)
    (input : List Byte) :
    ∃ p', Returns addSlot ⟨input, p⟩ () ⟨input, p'⟩ ∧ Takes p p' VARIANT_SLOT := by
  have hfree : p.left + VARIANT_SLOT ≤ p.right := by omega
  refine ⟨{ p with right := p.right - VARIANT_SLOT }, ?_, Nat.le_refl _, ?_, Nat.sub_le _ _, ?_⟩
  · rw [Returns, addSlot_apply, if_pos hfree]
    rfl
  · dsimp only
    omega
  · dsimp only
    omega

theorem returns_parseKey_takes {key name : List Byte} (h : Key key name) (hended : Ended rest)
    (hrest : ∃ c rest', rest = c :: rest' ∧ canBeInNonQuotedString c = false)
    (hroom : p.left ≤ p.right) (hfits : key.length + 1 ≤ p.right - p.left) :
    ∃ p', Returns parseKey ⟨name ++ rest, p⟩ key ⟨rest, p'⟩ ∧ Takes p p' (key.length + 1) := by
  obtain ⟨⟨input, p'⟩, hreturns, rfl⟩ := returns_parseKey h hfits hrest
  exact ⟨p', hreturns, ((safely_parseKey (hended.append name) hroom).of_returns hreturns).takes⟩

/-- **The elements of an array are read** one by one. -/
theorem returns_arrayLoop (hsafe : SafelyReads parse d) {e : Element} {es : List Element}
    (hspaced : ∀ x ∈ e :: es, x.Spaced) (hreads : ∀ x ∈ e :: es, Reads parse x.value x.body)
    (hended : Ended rest) {rounds : ℕ} (hrounds : es.length < rounds) (hroom : p.left ≤ p.right)
    (hfits : VariantData.elementUsage ((e :: es).map Element.value) ≤ p.right - p.left)
    (slots : List VariantData) :
    ∃ t, Returns (arrayLoop parse rounds slots)
      ⟨e.text ++ (following 0x5D (es.map Element.text) ++ rest), p⟩
      (.array (slots ++ (e :: es).map Element.value)) t ∧ t.input = rest := by
  induction es generalizing e p rounds slots with
  | nil =>
      obtain ⟨rounds, rfl⟩ : ∃ r, rounds = r + 1 := ⟨rounds - 1, by omega⟩
      obtain ⟨hlead, htrail⟩ := hspaced e (List.mem_cons_self ..)
      rw [List.map_cons, List.map_nil, VariantData.elementUsage, VariantData.elementUsage] at hfits
      have hended' : Ended (e.trail ++ 0x5D :: rest) := (hended.append [0x5D]).append _
      obtain ⟨p₁, hslot, htakes⟩ := returns_addSlot (by omega) hroom
        (e.lead ++ (e.body ++ (e.trail ++ 0x5D :: rest)))
      have := htakes.size
      obtain ⟨p₂, hvalue, -⟩ := (hreads e (List.mem_cons_self ..)).takes hsafe hlead
        (stops_layout_append htrail (by decide) _ _) hended' htakes.room (by omega)
      refine ⟨⟨rest, p₂⟩, ?_, rfl⟩
      rw [show e.text ++ (following 0x5D (([] : List Element).map Element.text) ++ rest) =
        e.lead ++ (e.body ++ (e.trail ++ 0x5D :: rest)) by simp [Element.text, following],
        arrayLoop]
      refine hslot.bind (hvalue.bind ?_)
      refine (returns_skipSpacesAndComments htrail (solid_cons (by decide) _) _).bind ?_
      refine (returns_eat_true _ _ _).bind ?_
      exact returns_pure.2 ⟨rfl, rfl⟩
  | cons e' es ih =>
      obtain ⟨rounds, rfl⟩ : ∃ r, rounds = r + 1 := ⟨rounds - 1, by omega⟩
      obtain ⟨⟨hlead, htrail⟩, hspaced'⟩ := List.forall_mem_cons.1 hspaced
      obtain ⟨hread, hreads'⟩ := List.forall_mem_cons.1 hreads
      set more : List Byte := e'.text ++ (following 0x5D (es.map Element.text) ++ rest)
      rw [List.map_cons, VariantData.elementUsage] at hfits
      have hended' : Ended (e.trail ++ 0x2C :: more) :=
        (((hended.append _).append _).append [0x2C]).append _
      obtain ⟨p₁, hslot, htakes⟩ := returns_addSlot (by omega) hroom
        (e.lead ++ (e.body ++ (e.trail ++ 0x2C :: more)))
      have := htakes.size
      obtain ⟨p₂, hvalue, htakes'⟩ := hread.takes hsafe hlead
        (stops_layout_append htrail (by decide) _ _) hended' htakes.room (by omega)
      have := htakes'.size
      have := htakes'.room
      obtain ⟨t, hloop, ht⟩ := ih hspaced' hreads' (Nat.lt_of_succ_lt_succ hrounds) this
        (by omega) (slots ++ [e.value])
      refine ⟨t, ?_, ht⟩
      rw [show e.text ++ (following 0x5D ((e' :: es).map Element.text) ++ rest) =
        e.lead ++ (e.body ++ (e.trail ++ 0x2C :: more)) by simp [Element.text, following, more],
        arrayLoop]
      refine hslot.bind (hvalue.bind ?_)
      refine (returns_skipSpacesAndComments htrail (solid_cons (by decide) _) _).bind ?_
      refine (returns_eat_false (by decide) _ _).bind ?_
      rw [if_neg Bool.false_ne_true]
      refine (returns_eat_true _ _ _).bind ?_
      rw [if_pos rfl, show slots ++ (e :: e' :: es).map Element.value =
        slots ++ [e.value] ++ (e' :: es).map Element.value by simp]
      exact hloop

/-- A key, a colon and a value are read, and a slot is taken for them. -/
theorem returns_pair (hsafe : SafelyReads parse d) {m : Member} (hspaced : m.Spaced)
    (hreads : Reads parse m.element.value m.element.body) {c : Byte}
    (hc : c ∈ [(0x2C : Byte), 0x7D]) (hended : Ended rest) (hroom : p.left ≤ p.right)
    (hfits : VARIANT_SLOT + m.element.value.memoryUsage + (m.key.length + 1) ≤ p.right - p.left) :
    ∃ p₁ p₂ p₃, Returns addSlot ⟨m.pair ++ c :: rest, p⟩ () ⟨m.pair ++ c :: rest, p₁⟩ ∧
      Returns parseKey ⟨m.pair ++ c :: rest, p₁⟩ m.key
        ⟨m.gap ++ 0x3A :: (m.element.text ++ c :: rest), p₂⟩ ∧
      Returns parse ⟨m.element.text ++ c :: rest, p₂⟩ m.element.value
        ⟨m.element.trail ++ c :: rest, p₃⟩ ∧
      Takes p p₃ (VARIANT_SLOT + m.element.value.memoryUsage + (m.key.length + 1)) := by
  obtain ⟨-, hname, hgap, hlead, htrail⟩ := hspaced
  have hdelimits : canBeInNonQuotedString c = false := by
    rcases List.mem_cons.1 hc with rfl | hc
    · decide
    · rw [List.mem_singleton.1 hc]
      decide
  have hended' : Ended (m.element.trail ++ c :: rest) := (hended.append [c]).append _
  have hpair : m.pair ++ c :: rest =
      m.name ++ (m.gap ++ 0x3A :: (m.element.text ++ c :: rest)) := by simp [Member.pair]
  have htext : m.element.text ++ c :: rest =
      m.element.lead ++ (m.element.body ++ (m.element.trail ++ c :: rest)) := by
    simp [Element.text]
  have hended'' : Ended (m.gap ++ 0x3A :: (m.element.text ++ c :: rest)) :=
    (((hended.append [c]).append _).append [0x3A]).append _
  obtain ⟨p₁, hslot, htakes₁⟩ := returns_addSlot (by omega) hroom (m.pair ++ c :: rest)
  have := htakes₁.size
  have hroom₁ := htakes₁.room
  obtain ⟨p₂, hkey, htakes₂⟩ := returns_parseKey_takes hname hended''
    (head_layout_append hgap (by decide) _) hroom₁ (by omega)
  have := htakes₂.size
  have hroom₂ := htakes₂.room
  obtain ⟨p₃, hvalue, htakes₃⟩ := hreads.takes hsafe hlead
    (stops_layout_append htrail hdelimits _ _) hended' hroom₂ (by omega)
  refine ⟨p₁, p₂, p₃, hslot, ?_, ?_, ?_⟩
  · rwa [hpair]
  · rwa [htext]
  · rw [Nat.add_assoc, Nat.add_comm m.element.value.memoryUsage]
    exact htakes₁.trans (htakes₂.trans htakes₃)

/-- **The members of an object are read** one by one. -/
theorem returns_objectLoop (hsafe : SafelyReads parse d) {m : Member} {ms : List Member}
    (hspaced : ∀ x ∈ m :: ms, x.Spaced)
    (hreads : ∀ x ∈ m :: ms, Reads parse x.element.value x.element.body)
    (hended : Ended rest) {rounds : ℕ} (hrounds : ms.length < rounds) (hroom : p.left ≤ p.right)
    (hfits : VariantData.memberUsage ((m :: ms).map Member.slot) ≤ p.right - p.left)
    (slots : List (List Byte × VariantData)) :
    ∃ t, Returns (objectLoop parse rounds slots)
      ⟨m.pair ++ (following 0x7D (ms.map Member.text) ++ rest), p⟩
      (.object (slots ++ (m :: ms).map Member.slot)) t ∧ t.input = rest := by
  induction ms generalizing m p rounds slots with
  | nil =>
      obtain ⟨rounds, rfl⟩ : ∃ r, rounds = r + 1 := ⟨rounds - 1, by omega⟩
      obtain ⟨hspaced, -⟩ := List.forall_mem_cons.1 hspaced
      obtain ⟨hread, -⟩ := List.forall_mem_cons.1 hreads
      rw [List.map_cons, List.map_nil, Member.slot, VariantData.memberUsage,
        VariantData.memberUsage] at hfits
      obtain ⟨p₁, p₂, p₃, hslot, hkey, hvalue, -⟩ :=
        returns_pair hsafe hspaced hread (c := 0x7D) (by decide) hended hroom hfits
      obtain ⟨-, -, hgap, -, htrail⟩ := hspaced
      refine ⟨⟨rest, p₃⟩, ?_, rfl⟩
      rw [show m.pair ++ (following 0x7D (([] : List Member).map Member.text) ++ rest) =
        m.pair ++ 0x7D :: rest by simp [following], objectLoop]
      refine hslot.bind (hkey.bind ?_)
      refine (returns_skipSpacesAndComments hgap (solid_cons (by decide) _) _).bind ?_
      refine (returns_eat_true _ _ _).bind (hvalue.bind ?_)
      refine (returns_skipSpacesAndComments htrail (solid_cons (by decide) _) _).bind ?_
      refine (returns_eat_true _ _ _).bind ?_
      exact returns_pure.2 ⟨rfl, rfl⟩
  | cons m' ms ih =>
      obtain ⟨rounds, rfl⟩ : ∃ r, rounds = r + 1 := ⟨rounds - 1, by omega⟩
      obtain ⟨hspaced, hspaced'⟩ := List.forall_mem_cons.1 hspaced
      obtain ⟨hread, hreads'⟩ := List.forall_mem_cons.1 hreads
      set more : List Byte := m'.pair ++ (following 0x7D (ms.map Member.text) ++ rest)
      rw [List.map_cons, Member.slot, VariantData.memberUsage] at hfits
      have hended' : Ended (m'.start ++ more) := ((hended.append _).append _).append _
      obtain ⟨p₁, p₂, p₃, hslot, hkey, hvalue, htakes⟩ :=
        returns_pair hsafe hspaced hread (c := 0x2C) (by decide) hended' hroom (by omega)
      have := htakes.size
      have := htakes.room
      obtain ⟨-, -, hgap, -, htrail⟩ := hspaced
      obtain ⟨hstart, hname, -⟩ := hspaced' m' (List.mem_cons_self ..)
      have hsolid : Solid more := by
        rw [show more = m'.name ++ (m'.gap ++ 0x3A :: m'.element.text ++
          (following 0x7D (ms.map Member.text) ++ rest)) by simp [Member.pair, more]]
        exact (begins_key hname).solid _
      obtain ⟨t, hloop, ht⟩ := ih hspaced' hreads' (Nat.lt_of_succ_lt_succ hrounds) this
        (by omega) (slots ++ [m.slot])
      refine ⟨t, ?_, ht⟩
      rw [show m.pair ++ (following 0x7D ((m' :: ms).map Member.text) ++ rest) =
        m.pair ++ 0x2C :: (m'.start ++ more) by simp [Member.text, following, more], objectLoop]
      refine hslot.bind (hkey.bind ?_)
      refine (returns_skipSpacesAndComments hgap (solid_cons (by decide) _) _).bind ?_
      refine (returns_eat_true _ _ _).bind (hvalue.bind ?_)
      refine (returns_skipSpacesAndComments htrail (solid_cons (by decide) _) _).bind ?_
      refine (returns_eat_false (by decide) _ _).bind ?_
      rw [if_neg Bool.false_ne_true]
      refine (returns_eat_true _ _ _).bind ?_
      rw [if_pos rfl]
      refine (returns_skipSpacesAndComments hstart hsolid _).bind ?_
      rw [show slots ++ (m :: m' :: ms).map Member.slot =
        slots ++ [m.slot] ++ (m' :: ms).map Member.slot by simp]
      exact hloop

theorem returns_parseWith {parse : Option (Deserializer VariantData)} {lead : List Byte}
    (hlead : Layout lead) {c : Byte} (hsolid : Solid (c :: rest)) {v : VariantData}
    (h : Returns (if c = 0x5B then parseArray parse else if c = 0x7B then parseObject parse
      else parseValue) ⟨c :: rest, p⟩ v t) :
    Returns (parseWith parse) ⟨lead ++ c :: rest, p⟩ v t := by
  rw [parseWith]
  refine (returns_skipSpacesAndComments hlead hsolid _).bind ?_
  exact (returns_current_cons _ _ _).bind h

theorem reads_token {parse : Option (Deserializer VariantData)} {v : VariantData}
    {text : List Byte} (h : Token v text) : Reads (parseWith parse) v text := by
  intro lead rest p hlead hstops hended hroom hfits
  obtain ⟨c, text, rfl⟩ := List.exists_cons_of_ne_nil h.ne_nil
  have hc := h.chars c (List.mem_cons_self ..)
  have hne : c ≠ 0x5B ∧ c ≠ 0x7B ∧ ¬isQuote c = true := by
    refine ⟨?_, ?_, fun hquote => ?_⟩
    · rintro rfl
      exact absurd hc (by decide)
    · rintro rfl
      exact absurd hc (by decide)
    · rcases isQuote_iff.1 hquote with rfl | rfl <;> exact absurd hc (by decide)
  refine ⟨⟨rest, p⟩, returns_parseWith hlead (solid_cons (Or.inl hc) _) ?_, rfl⟩
  rw [if_neg hne.1, if_neg hne.2.1, parseValue]
  refine (returns_current_cons _ _ _).bind ?_
  rw [if_neg hne.2.2, parseNumericValue]
  have htoken : Returns (tokenLoop 63 []) ⟨(c :: text) ++ rest, p⟩ ([] ++ c :: text) ⟨rest, p⟩ :=
    returns_tokenLoop hended.ne_nil h.chars h.length (hstops h.chars) [] p
  exact htoken.bind (returns_tokenValue.2 ⟨h.denotes, rfl⟩)

theorem reads_string {parse : Option (Deserializer VariantData)} {quote : Byte}
    (hquote : isQuote quote = true) {str text : List Byte} (h : Quoted quote str text) :
    Reads (parseWith parse) (.ownedString str) (quote :: (text ++ [quote])) := by
  intro lead rest p hlead _ _ hroom hfits
  obtain ⟨t, hreturns, ht⟩ := returns_parseQuotedString hquote h hfits rest
  have hne : quote ≠ 0x5B ∧ quote ≠ 0x7B := by
    rcases isQuote_iff.1 hquote with rfl | rfl <;> decide
  have hsolid : Solid (quote :: (text ++ quote :: rest)) := (begins_quote hquote text).solid _
  rw [show quote :: (text ++ [quote]) ++ rest = quote :: (text ++ quote :: rest) by simp]
  refine ⟨t, returns_parseWith hlead hsolid ?_, ht⟩
  rw [if_neg hne.1, if_neg hne.2, parseValue]
  refine (returns_current_cons _ _ _).bind ?_
  rw [if_pos hquote, parseStringValue]
  exact hreturns.bind (returns_pure.2 ⟨rfl, rfl⟩)

theorem reads_emptyArray {gap : List Byte} (h : Layout gap) :
    Reads (parseWith (some parse)) (.array []) (0x5B :: (gap ++ [0x5D])) := by
  intro lead rest p hlead _ _ hroom hfits
  rw [show 0x5B :: (gap ++ [0x5D]) ++ rest = 0x5B :: (gap ++ 0x5D :: rest) by simp]
  refine ⟨⟨rest, p⟩, returns_parseWith hlead (solid_cons (by decide) _) ?_, rfl⟩
  rw [if_pos rfl, parseArray]
  refine (returns_eat_true _ _ _).bind ?_
  rw [if_pos rfl]
  refine (returns_skipSpacesAndComments h (solid_cons (by decide) _) _).bind ?_
  refine (returns_eat_true _ _ _).bind ?_
  exact returns_pure.2 ⟨rfl, rfl⟩

theorem reads_emptyObject {gap : List Byte} (h : Layout gap) :
    Reads (parseWith (some parse)) (.object []) (0x7B :: (gap ++ [0x7D])) := by
  intro lead rest p hlead _ _ hroom hfits
  rw [show 0x7B :: (gap ++ [0x7D]) ++ rest = 0x7B :: (gap ++ 0x7D :: rest) by simp]
  refine ⟨⟨rest, p⟩, returns_parseWith hlead (solid_cons (by decide) _) ?_, rfl⟩
  rw [if_neg (by decide), if_pos rfl, parseObject]
  refine (returns_eat_true _ _ _).bind ?_
  rw [if_pos rfl]
  refine (returns_skipSpacesAndComments h (solid_cons (by decide) _) _).bind ?_
  refine (returns_eat_true _ _ _).bind ?_
  exact returns_pure.2 ⟨rfl, rfl⟩

theorem reads_array (hsafe : SafelyReads parse d) {e : Element} {es : List Element}
    (hspaced : ∀ x ∈ e :: es, x.Spaced) (hwritten : Written e.value e.body)
    (hreads : ∀ x ∈ e :: es, Reads parse x.value x.body) :
    Reads (parseWith (some parse)) (.array ((e :: es).map Element.value))
      (0x5B :: (e.text ++ following 0x5D (es.map Element.text))) := by
  intro lead rest p hlead _ hended hroom hfits
  obtain ⟨⟨helead, hetrail⟩, hspaced'⟩ := List.forall_mem_cons.1 hspaced
  obtain ⟨hread, hreads'⟩ := List.forall_mem_cons.1 hreads
  -- the loop starts behind what stands before the first element
  set bare : Element := { e with lead := [] }
  set more : List Byte := bare.text ++ (following 0x5D (es.map Element.text) ++ rest)
  have hmore : more = e.body ++ (e.trail ++ (following 0x5D (es.map Element.text) ++ rest)) := by
    simp [more, bare, Element.text]
  have hrounds : es.length < more.length + 1 := by
    have := length_following 0x5D (es.map Element.text)
    rw [List.length_map] at this
    simp only [more, List.length_append]
    omega
  rw [VariantData.memoryUsage] at hfits
  have hspaced'' : ∀ x ∈ bare :: es, x.Spaced :=
    List.forall_mem_cons.2 ⟨⟨.nil, hetrail⟩, hspaced'⟩
  obtain ⟨t, hloop, ht⟩ := returns_arrayLoop hsafe hspaced''
    (List.forall_mem_cons.2 ⟨hread, hreads'⟩) hended hrounds hroom hfits []
  refine ⟨t, ?_, ht⟩
  rw [show 0x5B :: (e.text ++ following 0x5D (es.map Element.text)) ++ rest =
    0x5B :: (e.lead ++ more) by simp [hmore, Element.text]]
  refine returns_parseWith hlead (solid_cons (by decide) _) ?_
  rw [if_pos rfl, parseArray]
  refine (returns_eat_true _ _ _).bind ?_
  rw [if_pos rfl]
  have hbegins := begins_written hwritten
  have hsolid : Solid more := hmore ▸ hbegins.solid _
  have hopen : Returns (eat 0x5D) ⟨more, p⟩ false ⟨more, p⟩ :=
    hmore ▸ hbegins.returns_eat (by decide) _ p
  refine (returns_skipSpacesAndComments helead hsolid _).bind (hopen.bind ?_)
  rw [if_neg Bool.false_ne_true]
  exact (returns_apply (g := fun u : Source => arrayLoop parse (u.input.length + 1) [])).2 hloop

theorem reads_object (hsafe : SafelyReads parse d) {m : Member} {ms : List Member}
    (hspaced : ∀ x ∈ m :: ms, x.Spaced)
    (hreads : ∀ x ∈ m :: ms, Reads parse x.element.value x.element.body) :
    Reads (parseWith (some parse)) (.object ((m :: ms).map Member.slot))
      (0x7B :: (m.text ++ following 0x7D (ms.map Member.text))) := by
  intro lead rest p hlead _ hended hroom hfits
  obtain ⟨hstart, hname, -⟩ := hspaced m (List.mem_cons_self ..)
  set more : List Byte := m.pair ++ (following 0x7D (ms.map Member.text) ++ rest)
  have hmore : more = m.name ++ (m.gap ++ 0x3A :: m.element.text ++
      (following 0x7D (ms.map Member.text) ++ rest)) := by
    simp [more, Member.pair]
  have hrounds : ms.length < more.length + 1 := by
    have := length_following 0x7D (ms.map Member.text)
    rw [List.length_map] at this
    simp only [more, List.length_append]
    omega
  rw [VariantData.memoryUsage] at hfits
  obtain ⟨t, hloop, ht⟩ := returns_objectLoop hsafe hspaced hreads hended hrounds hroom hfits []
  refine ⟨t, ?_, ht⟩
  rw [show 0x7B :: (m.text ++ following 0x7D (ms.map Member.text)) ++ rest =
    0x7B :: (m.start ++ more) by simp [more, Member.text]]
  refine returns_parseWith hlead (solid_cons (by decide) _) ?_
  rw [if_neg (by decide), if_pos rfl, parseObject]
  refine (returns_eat_true _ _ _).bind ?_
  rw [if_pos rfl]
  have hbegins := begins_key hname
  have hsolid : Solid more := hmore ▸ hbegins.solid _
  have hopen : Returns (eat 0x7D) ⟨more, p⟩ false ⟨more, p⟩ :=
    hmore ▸ hbegins.returns_eat (by decide) _ p
  refine (returns_skipSpacesAndComments hstart hsolid _).bind (hopen.bind ?_)
  rw [if_neg Bool.false_ne_true]
  exact (returns_apply (g := fun u : Source => objectLoop parse (u.input.length + 1) [])).2 hloop

/-- **What is written is read**, if the nesting limit allows it. -/
theorem reads_parse {v : VariantData} {text : List Byte} (h : Written v text) {limit : ℕ}
    (hlimit : v.nesting ≤ limit) : Reads (Deserializer.parse limit) v text := by
  induction h generalizing limit with
  | token htoken => cases limit <;> exact reads_token htoken
  | string hquote hquoted => cases limit <;> exact reads_string hquote hquoted
  | emptyArray hgap =>
      cases limit with
      | zero => exact absurd hlimit (by rw [VariantData.nesting]; omega)
      | succ limit => exact reads_emptyArray hgap
  | @array e es hspaced hwritten ih =>
      rw [VariantData.nesting] at hlimit
      obtain ⟨limit, rfl⟩ : ∃ l, limit = l + 1 := ⟨limit - 1, by omega⟩
      refine reads_array (safely_parse limit) hspaced (hwritten e (List.mem_cons_self ..))
        fun x hx => ih x hx ?_
      have hmem : x.value ∈ (e :: es).map Element.value := List.mem_map_of_mem hx
      have := VariantData.nesting_le_maxElementNesting hmem
      omega
  | emptyObject hgap =>
      cases limit with
      | zero => exact absurd hlimit (by rw [VariantData.nesting]; omega)
      | succ limit => exact reads_emptyObject hgap
  | @object m ms hspaced hwritten ih =>
      rw [VariantData.nesting] at hlimit
      obtain ⟨limit, rfl⟩ : ∃ l, limit = l + 1 := ⟨limit - 1, by omega⟩
      refine reads_object (safely_parse limit) hspaced fun x hx => ih x hx ?_
      have hmem : x.slot ∈ (m :: ms).map Member.slot := List.mem_map_of_mem hx
      have : x.element.value.nesting ≤ _ := VariantData.nesting_le_maxMemberNesting hmem
      omega

end Deserializer

/-- Up to its first zero the text begins, after layout, with one that the value is written
in, and the value is within the limits.  What comes behind is not looked at. -/
structure StandsFor (text : List Byte) (v : VariantData) : Prop where
  nesting : v.nesting ≤ DEFAULT_NESTING_LIMIT
  memoryUsage : v.memoryUsage ≤ JSON_BUFF_SIZE
  written : ∃ lead body rest, text.takeWhile (· ≠ 0) = lead ++ (body ++ rest) ∧ Layout lead ∧
    Written v body ∧ Stops body rest

theorem standsFor_of_ok {text : List Byte} {v : VariantData} {t : Source}
    (h : deserializeJson text = some (.ok (v, t))) : StandsFor text v := by
  set content := text.takeWhile (· ≠ 0) with hcontent
  set s : Source := ⟨content ++ [0], ⟨0, JSON_BUFF_SIZE⟩⟩
  have hreturns : Returns (Deserializer.parse DEFAULT_NESTING_LIMIT) s v t := h
  obtain ⟨⟨⟨more, hmore⟩, -, htakes⟩, hnesting⟩ := (Deserializer.safely_parse
    DEFAULT_NESTING_LIMIT s ⟨content, rfl⟩ (Nat.zero_le _)).of_returns hreturns
  obtain ⟨lead, body, hlead, hwritten, hstops, hinput⟩ :=
    Deserializer.parse_sound _ _ _ _ hreturns
  have hroom := htakes.room
  have hright : t.pool.right ≤ JSON_BUFF_SIZE := htakes.right
  have hsize : t.pool.left + JSON_BUFF_SIZE = 0 + t.pool.right + v.memoryUsage := htakes.size
  refine ⟨hnesting, by omega, lead, body, more, ?_, hlead, hwritten, ?_⟩
  · rw [hmore] at hinput
    have : content ++ [0] = (lead ++ (body ++ more)) ++ [0] := by simpa [s] using hinput
    exact List.append_cancel_right this
  · intro hchars
    refine (hstops hchars).imp id fun hhead c hc => hhead c ?_
    rw [hmore]
    cases more with
    | nil => cases hc
    | cons d more => exact hc

theorem ok_of_standsFor {text : List Byte} {v : VariantData} (h : StandsFor text v) :
    ∃ t, deserializeJson text = some (.ok (v, t)) := by
  obtain ⟨lead, body, rest, hcontent, hlead, hwritten, hstops⟩ := h.written
  have hstops' : Stops body (rest ++ [0]) := by
    intro hchars
    refine (hstops hchars).imp id fun hhead c hc => ?_
    cases rest with
    | nil =>
        obtain rfl := Option.some.inj hc
        decide
    | cons d rest => exact hhead c hc
  obtain ⟨t, hreturns, -⟩ := Deserializer.reads_parse hwritten h.nesting lead (rest ++ [0])
    ⟨0, JSON_BUFF_SIZE⟩ hlead hstops' ⟨rest, rfl⟩ (Nat.zero_le _) h.memoryUsage
  refine ⟨t, ?_⟩
  show Returns (Deserializer.parse DEFAULT_NESTING_LIMIT)
    ⟨text.takeWhile (· ≠ 0) ++ [0], ⟨0, JSON_BUFF_SIZE⟩⟩ v t
  rw [hcontent, List.append_assoc, List.append_assoc]
  exact hreturns

/-- **What the deserializer accepts**: the texts that stand for a value, and from each of
them it reads that value. -/
theorem deserializeJson_iff (text : List Byte) (v : VariantData) :
    (∃ t, deserializeJson text = some (.ok (v, t))) ↔ StandsFor text v := by
  constructor
  · rintro ⟨t, h⟩
    exact standsFor_of_ok h
  · exact ok_of_standsFor

end Json
end Remora
