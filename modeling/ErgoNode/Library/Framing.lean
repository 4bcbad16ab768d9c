import Mathlib.Tactic.Common

/-!
# Readers of framed bytes

A record on disk is its fields one after the other, some of them behind a count or a length. A
`Reader` takes them off the front of the bytes and keeps its offset, which its errors report.
`Parses r enc a` says that `r` takes exactly `enc` off the front, whatever follows, and returns `a`.
`Yields r P` says that whatever `r` returns has the property `P`. Both compose along the reader.
-/

namespace ErgoNode

open List

/-- The bytes still to be read, and how many were read before them. -/
structure Cursor where
  pos : ℕ
  rest : List UInt8

/-- A reader that stops with an error or returns a value and moves on. -/
abbrev Reader (ε α : Type) := StateT Cursor (Except ε) α

namespace Reader

variable {ε α β : Type}

def take (n : ℕ) (truncated : ℕ → ε) : Reader ε (List UInt8) := fun c =>
  if c.rest.length < n then .error (truncated c.pos)
  else .ok (c.rest.take n, ⟨c.pos + n, c.rest.drop n⟩)

def byte (truncated : ℕ → ε) : Reader ε UInt8 := do
  let bytes ← take 1 truncated
  pure (bytes.headD 0)

def remaining : Reader ε ℕ := fun c => .ok (c.rest.length, c)

def many (r : Reader ε α) : ℕ → Reader ε (List α)
  | 0 => pure []
  | n + 1 => do
    let a ← r
    let as ← many r n
    pure (a :: as)

def parse (r : Reader ε α) (data : List UInt8) : Except ε α := (r ⟨0, data⟩).map Prod.fst

/-- `r` takes exactly `enc` off the front and returns `a`. -/
def Parses (r : Reader ε α) (enc : List UInt8) (a : α) : Prop :=
  ∀ pos rest, r ⟨pos, enc ++ rest⟩ = .ok (a, ⟨pos + enc.length, rest⟩)

namespace Parses

variable {r : Reader ε α} {f : α → Reader ε β} {enc enc' : List UInt8} {a : α} {b : β}

lemma pure (a : α) : Parses (Pure.pure a : Reader ε α) [] a := fun _ _ => rfl

lemma run_bind (h : Parses r enc a) (pos : ℕ) (rest : List UInt8) :
    (r >>= f) ⟨pos, enc ++ rest⟩ = f a ⟨pos + enc.length, rest⟩ := by
  change (r ⟨pos, enc ++ rest⟩ >>= fun p => f p.1 p.2) = _
  rw [h pos rest]
  rfl

lemma bind (h : Parses r enc a) (h' : Parses (f a) enc' b) : Parses (r >>= f) (enc ++ enc') b := by
  intro pos rest
  rw [append_assoc, h.run_bind, h' _ rest, length_append, Nat.add_assoc]

lemma map (h : Parses r enc a) (g : α → β) : Parses (do let a ← r; Pure.pure (g a)) enc (g a) := by
  simpa using h.bind (f := fun a => Pure.pure (g a)) (pure (g a))

lemma take (enc : List UInt8) (truncated : ℕ → ε) :
    Parses (Reader.take enc.length truncated) enc enc := by
  intro pos rest
  have hlen : ¬ (enc ++ rest).length < enc.length := by simp
  simp only [Reader.take, hlen, if_false, take_left, drop_left]

lemma take_of_length {n : ℕ} (h : enc.length = n) (truncated : ℕ → ε) :
    Parses (Reader.take n truncated) enc enc := by
  subst h
  exact take enc truncated

lemma byte (b : UInt8) (truncated : ℕ → ε) : Parses (Reader.byte truncated) [b] b :=
  (take [b] truncated).map (·.headD 0)

lemma remaining_bind {f : ℕ → Reader ε α} (h : ∀ n, enc.length ≤ n → Parses (f n) enc a) :
    Parses (remaining >>= f) enc a := by
  intro pos rest
  have hlen : enc.length ≤ (enc ++ rest).length := by
    rw [length_append]
    exact Nat.le_add_right _ _
  exact h (enc ++ rest).length hlen pos rest

lemma many_map {γ : Type} {encode : γ → List UInt8} {g : γ → α} {cs : List γ}
    (h : ∀ c ∈ cs, Parses r (encode c) (g c)) :
    Parses (Reader.many r cs.length) (cs.flatMap encode) (cs.map g) := by
  induction cs with
  | nil => exact pure []
  | cons c cs ih =>
    have htail := ih (fun c' hc' => h c' (mem_cons_of_mem _ hc'))
    exact (h c mem_cons_self).bind (htail.map (g c :: ·))

variable {encode : α → List UInt8}

lemma many {as : List α} (h : ∀ a ∈ as, Parses r (encode a) a) :
    Parses (Reader.many r as.length) (as.flatMap encode) as := by
  simpa using many_map (g := id) h

lemma of_remaining {n : ℕ} {dflt : Reader ε α} (h : Parses r enc a) (hn : n ≤ enc.length) :
    Parses (do if n ≤ (← remaining) then r else dflt) enc a := by
  refine remaining_bind (fun left hleft => ?_)
  rwa [if_pos (Nat.le_trans hn hleft)]

lemma parse_eq (h : Parses r enc a) : r.parse enc = .ok a := by
  have := h 0 []
  rw [append_nil] at this
  rw [parse, this]
  rfl

lemma parse_bind (h : Parses r enc a) (rest : List UInt8) :
    (r >>= f).parse (enc ++ rest) = (f a ⟨enc.length, rest⟩).map Prod.fst := by
  rw [parse, h.run_bind, Nat.zero_add]

end Parses

/-- What `r` returns has the property. -/
def Yields (r : Reader ε α) (P : α → Prop) : Prop := ∀ c a c', r c = .ok (a, c') → P a

namespace Yields

variable {r : Reader ε α} {f : α → Reader ε β} {P : α → Prop} {Q : β → Prop}

lemma pure {a : α} (h : P a) : Yields (Pure.pure a : Reader ε α) P := by
  rintro c a' c' ⟨⟩
  exact h

lemma throw (e : ε) : Yields (MonadExcept.throw e : Reader ε α) P := by
  rintro c a c' ⟨⟩

lemma bind (h : Yields r P) (h' : ∀ a, P a → Yields (f a) Q) : Yields (r >>= f) Q := by
  intro c b c' hrun
  change (r c >>= fun p => f p.1 p.2) = _ at hrun
  cases hr : r c with
  | error e =>
    rw [hr] at hrun
    cases hrun
  | ok p =>
    rw [hr] at hrun
    exact h' p.1 (h c p.1 p.2 hr) p.2 b c' hrun

lemma bind_any (h' : ∀ a, Yields (f a) Q) : Yields (r >>= f) Q :=
  bind (P := fun _ => True) (fun _ _ _ _ => trivial) (fun a _ => h' a)

lemma take (n : ℕ) (truncated : ℕ → ε) : Yields (Reader.take n truncated) (·.length = n) := by
  intro c bytes c' hrun
  rw [Reader.take] at hrun
  split at hrun
  · cases hrun
  · cases hrun
    rw [length_take]
    omega

lemma many (h : Yields r P) (n : ℕ) :
    Yields (Reader.many r n) (fun as => as.length = n ∧ ∀ a ∈ as, P a) := by
  induction n with
  | zero => exact pure ⟨rfl, fun a ha => nomatch ha⟩
  | succ n ih =>
    refine bind h (fun a ha => bind ih (fun as has => pure ⟨?_, ?_⟩))
    · rw [length_cons, has.1]
    · exact forall_mem_cons.2 ⟨ha, has.2⟩

lemma of_parse {data : List UInt8} {a : α} (h : Yields r P) (hparse : r.parse data = .ok a) :
    P a := by
  rw [parse] at hparse
  cases hr : r ⟨0, data⟩ with
  | error e =>
    rw [hr] at hparse
    cases hparse
  | ok p =>
    rw [hr] at hparse
    cases hparse
    exact h _ _ _ hr

end Yields

/-- What `r` accepts it takes off the front of the bytes, and on less than that it ends with
`eof`. -/
def Streams (eof : ε) (r : Reader ε α) : Prop :=
  ∀ c a c', r c = .ok (a, c') → ∃ used, c.rest = used ++ c'.rest ∧ Parses r used a ∧
    ∀ pos p q, used = p ++ q → q ≠ [] → r ⟨pos, p⟩ = .error eof

namespace Streams

variable {eof : ε} {r : Reader ε α} {f : α → Reader ε β}

lemma pure (a : α) : Streams eof (Pure.pure a : Reader ε α) := by
  rintro c _ _ ⟨⟩
  refine ⟨[], rfl, .pure a, fun pos p q hsplit hq => ?_⟩
  exact absurd (append_eq_nil_iff.1 hsplit.symm).2 hq

lemma throw (e : ε) : Streams eof (MonadExcept.throw e : Reader ε α) := by
  rintro c a c' ⟨⟩

lemma take (n : ℕ) : Streams eof (Reader.take n fun _ => eof) := by
  intro c a c' hrun
  rw [Reader.take] at hrun
  split at hrun
  · cases hrun
  next hlen =>
    cases hrun
    have htake : (c.rest.take n).length = n := by
      rw [length_take]
      omega
    refine ⟨c.rest.take n, (take_append_drop n c.rest).symm, .take_of_length htake _, ?_⟩
    intro pos p q hsplit hq
    have hlt : p.length < n := by
      rw [hsplit, length_append] at htake
      have := length_pos_iff.2 hq
      omega
    rw [Reader.take, if_pos hlt]

lemma bind (h : Streams eof r) (h' : ∀ a, Streams eof (f a)) : Streams eof (r >>= f) := by
  intro c b c'' hrun
  change (r c >>= fun p => f p.1 p.2) = _ at hrun
  cases hr : r c with
  | error e =>
    rw [hr] at hrun
    cases hrun
  | ok p =>
    obtain ⟨a, c'⟩ := p
    rw [hr] at hrun
    obtain ⟨used, hused, hparses, hshort⟩ := h c a c' hr
    obtain ⟨used', hused', hparses', hshort'⟩ := h' a c' b c'' hrun
    refine ⟨used ++ used', by rw [hused, hused', append_assoc], hparses.bind hparses', ?_⟩
    -- a strict prefix ends in the first part, or in the second
    intro pos p q hsplit hq
    rcases append_eq_append_iff.1 hsplit with ⟨s, rfl, hs⟩ | ⟨s, hs, rfl⟩
    · rw [hparses.run_bind]
      exact hshort' _ s q hs hq
    · by_cases hnil : s = []
      · obtain rfl : used = p := by simpa [hnil] using hs
        have hempty := hshort' (pos + used.length) [] used' rfl (by simpa [hnil] using hq)
        simpa using (hparses.run_bind pos []).trans hempty
      · change (r ⟨pos, p⟩ >>= fun p => f p.1 p.2) = _
        rw [hshort pos p s hs hnil]
        rfl

lemma many (h : Streams eof r) (n : ℕ) : Streams eof (Reader.many r n) := by
  induction n with
  | zero => exact pure []
  | succ n ih => exact h.bind fun a => ih.bind fun as => pure (a :: as)

end Streams

end Reader

/-! ## Records of one size -/

section Records

variable {α : Type} {size : ℕ}

/-- Read up to `n` records of `size` bytes; what is left and shorter is not looked at. -/
def readRecords (size : ℕ) (decode : { bytes : List UInt8 // bytes.length = size } → α) :
    ℕ → List UInt8 → List α
  | 0, _ => []
  | n + 1, data =>
    if h : size ≤ data.length then
      decode ⟨data.take size, by rw [List.length_take, Nat.min_eq_left h]⟩ ::
        readRecords size decode n (data.drop size)
    else []

lemma readRecords_flatMap {decode : { bytes : List UInt8 // bytes.length = size } → α}
    (hsize : 0 < size) (hlen : ∀ a, (encode a).length = size)
    (hdecode : ∀ a, decode ⟨encode a, hlen a⟩ = a) (n : ℕ) (as : List α) :
    readRecords size decode n (as.flatMap encode) = as.take n := by
  induction n generalizing as with
  | zero => rfl
  | succ n ih =>
    cases as with
    | nil => simp [readRecords, Nat.not_le.2 hsize]
    | cons a as =>
      have hle : size ≤ (encode a ++ as.flatMap encode).length := by simp [hlen]
      have htake : (encode a ++ as.flatMap encode).take size = encode a :=
        take_left' (hlen a)
      rw [flatMap_cons, readRecords, dif_pos hle, drop_left' (hlen a), ih]
      simp only [htake, hdecode, take_succ_cons]

lemma length_readRecords_le (decode : { bytes : List UInt8 // bytes.length = size } → α) (n : ℕ)
    (data : List UInt8) : (readRecords size decode n data).length ≤ n := by
  induction n generalizing data with
  | zero => simp [readRecords]
  | succ n ih =>
    rw [readRecords]
    split
    · exact Nat.succ_le_succ (ih _)
    · exact Nat.zero_le _

end Records

end ErgoNode
