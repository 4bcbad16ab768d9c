import ErgoNode.Chain.Voting

/-!
# The codec of validation-settings updates

An update is a counted list of rule ids and a counted list of status changes. The reader takes
counts as signed 32-bit integers, adds the lowest sigma rule id to an offset with 16 bits, and
refuses rules that may not be disabled; the writer refuses a rule id below the lowest. So they agree
on lists of fewer than `2 ^ 31` entries, and some updates that are read cannot be written again.
-/

namespace ErgoNode

open List

variable {α : Type} {get : Bytes → Option (α × Bytes)}

/-! ## Counted lists -/

lemma getMany_of_forall {put : α → Bytes} {as : List α}
    (h : ∀ a ∈ as, ∀ rest, get (put a ++ rest) = some (a, rest)) (rest : Bytes) :
    getMany get as.length (as.flatMap put ++ rest) = some (as, rest) := by
  induction as with
  | nil => rfl
  | cons a as ih =>
    rw [flatMap_cons, append_assoc, length_cons, getMany, h a mem_cons_self]
    simp [ih (forall_mem_cons.1 h).2]

lemma getMany_eq_some {P : α → Prop} (hget : ∀ bytes a rest, get bytes = some (a, rest) → P a)
    {n : ℕ} {bytes rest : Bytes} {as : List α} (h : getMany get n bytes = some (as, rest)) :
    as.length = n ∧ ∀ a ∈ as, P a := by
  induction n generalizing bytes as rest with
  | zero =>
    cases h
    simp
  | succ n ih =>
    simp only [getMany, Option.bind_eq_bind, Option.bind_eq_some_iff] at h
    obtain ⟨⟨a, rest₁⟩, ha, ⟨as', rest₂⟩, has, h⟩ := h
    cases h
    obtain ⟨hlen, hall⟩ := ih has
    exact ⟨by rw [length_cons, hlen], forall_mem_cons.2 ⟨hget _ _ _ ha, hall⟩⟩

lemma signedCount_lt (raw : ℕ) : signedCount raw < 2 ^ 31 := by
  unfold signedCount
  split <;> omega

/-! ## The writer -/

variable (sigmaSerialize : RuleStatus → Except String Bytes)

/-- One status update on the wire: the offset of the rule id, and the status as `sigmaSerialize`
writes it. -/
def putStatusUpdate (i : ℕ) (ruleId : ℤ) (status : RuleStatus) : Except ChainError Bytes :=
  let offset := ruleId - firstRuleId
  if 0 ≤ offset ∧ offset < 2 ^ 16 then
    match sigmaSerialize status with
    | .error e => .error (.voting s!"settings update encode: status update at index {i}: {e}")
    | .ok bytes => .ok (putVlq offset.toNat ++ bytes)
  else .error (.voting (s!"settings update encode: status update rule id {ruleId} at index {i} " ++
    s!"is below FIRST_RULE_ID {firstRuleId} (negative wire offset, JVM putUShort require)"))

def putStatusUpdates : (i : ℕ) → List (ℤ × RuleStatus) → Except ChainError Bytes
  | _, [] => .ok []
  | i, (ruleId, status) :: rest => do
    let bytes ← putStatusUpdate sigmaSerialize i ruleId status
    let more ← putStatusUpdates (i + 1) rest
    .ok (bytes ++ more)

/-- Canonical serialization of an update. The lengths are cut to 32 bits. -/
def encodeValidationSettingsUpdate (update : ValidationSettingsUpdate) :
    Except ChainError Bytes := do
  let statuses ← putStatusUpdates sigmaSerialize 0 update.statuses
  .ok (putVlq (update.rules.length % 2 ^ 32) ++ (update.rules.flatMap putVlq ++
    (putVlq (update.statuses.length % 2 ^ 32) ++ statuses)))

/-- The numbers are values of the code's types: rule ids have 16 bits, those of status changes are
signed. -/
structure ValidationSettingsUpdate.Fits (u : ValidationSettingsUpdate) : Prop where
  rules : ∀ rule ∈ u.rules, rule < 2 ^ 16
  statuses : ∀ e ∈ u.statuses, -2 ^ 15 ≤ e.1 ∧ e.1 < 2 ^ 15

/-- What the reader accepts: rules that may be disabled, in lists that a signed count describes. -/
structure ValidationSettingsUpdate.Readable (u : ValidationSettingsUpdate) : Prop where
  ruleCount : u.rules.length < 2 ^ 31
  statusCount : u.statuses.length < 2 ^ 31
  disableable : u.rules.find? ruleMayNotBeDisabled = none

def SigmaRoundTrip (sigmaParse : Bytes → Option (RuleStatus × Bytes)) : Prop :=
  ∀ status bytes rest, sigmaSerialize status = .ok bytes →
    sigmaParse (bytes ++ rest) = some (status, rest)

variable {sigmaSerialize} {sigmaParse : Bytes → Option (RuleStatus × Bytes)}
  {u : ValidationSettingsUpdate} {bytes : Bytes} {statuses : List (ℤ × RuleStatus)} {i : ℕ}
  {status : RuleStatus}

lemma putStatusUpdate_eq_ok {ruleId : ℤ} (hfits : ruleId < 2 ^ 15) :
    putStatusUpdate sigmaSerialize i ruleId status = .ok bytes ↔
      1000 ≤ ruleId ∧ ∃ b, sigmaSerialize status = .ok b ∧
        bytes = putVlq (ruleId - 1000).toNat ++ b := by
  unfold putStatusUpdate firstRuleId
  dsimp only
  split
  · cases sigmaSerialize status with
    | error e => simp
    | ok b =>
      have hle : 1000 ≤ ruleId := by omega
      simp [hle, eq_comm]
  · have hlt : ¬1000 ≤ ruleId := by omega
    simp [hlt]

lemma getStatusUpdate_putStatusUpdate (hsigma : SigmaRoundTrip sigmaSerialize sigmaParse)
    {ruleId : ℤ} (hfits : ruleId < 2 ^ 15)
    (h : putStatusUpdate sigmaSerialize i ruleId status = .ok bytes) (rest : Bytes) :
    getStatusUpdate sigmaParse (bytes ++ rest) = some ((ruleId, status), rest) := by
  obtain ⟨hle, b, hb, rfl⟩ := (putStatusUpdate_eq_ok hfits).1 h
  have hid : (((ruleId - 1000).toNat + firstRuleId : ℕ) : ℤ).bmod (2 ^ 16) = ruleId := by
    rw [firstRuleId, Int.bmod_eq_of_le (by omega) (by omega)]
    omega
  rw [append_assoc, getStatusUpdate, getU16_putVlq (by omega)]
  simp only [Option.bind_eq_bind, Option.bind_some, hsigma _ _ _ hb, hid]

lemma getMany_putStatusUpdates (hsigma : SigmaRoundTrip sigmaSerialize sigmaParse)
    (hfits : ∀ e ∈ statuses, e.1 < 2 ^ 15)
    (h : putStatusUpdates sigmaSerialize i statuses = .ok bytes) (rest : Bytes) :
    getMany (getStatusUpdate sigmaParse) statuses.length (bytes ++ rest) = some (statuses, rest) := by
  induction statuses generalizing i bytes with
  | nil =>
    cases h
    rfl
  | cons e statuses ih =>
    simp only [putStatusUpdates, bind_eq_ok] at h
    obtain ⟨b, hb, more, hmore, h⟩ := h
    cases h
    rw [append_assoc, length_cons, getMany,
      getStatusUpdate_putStatusUpdate hsigma (hfits _ mem_cons_self) hb]
    simp [ih (forall_mem_cons.1 hfits).2 hmore]

lemma exists_putStatusUpdates (hfits : ∀ e ∈ statuses, e.1 < 2 ^ 15) :
    (∃ b, putStatusUpdates sigmaSerialize i statuses = .ok b) ↔
      ∀ e ∈ statuses, 1000 ≤ e.1 ∧ ∃ b, sigmaSerialize e.2 = .ok b := by
  induction statuses generalizing i with
  | nil => simp [putStatusUpdates]
  | cons e statuses ih =>
    obtain ⟨hfirst, hrest⟩ := forall_mem_cons.1 hfits
    simp only [putStatusUpdates, bind_eq_ok, putStatusUpdate_eq_ok hfirst, forall_mem_cons,
      ← ih (i := i + 1) hrest]
    constructor
    · rintro ⟨_, _, ⟨hle, b, hb, -⟩, more, hmore, -⟩
      exact ⟨⟨hle, b, hb⟩, more, hmore⟩
    · rintro ⟨⟨hle, b, hb⟩, more, hmore⟩
      exact ⟨_, _, ⟨hle, b, hb, rfl⟩, more, hmore, rfl⟩

/-! ## The reader -/

lemma readable_of_parse (h : parseValidationSettingsUpdate sigmaParse bytes = .ok u) :
    u.Fits ∧ u.Readable := by
  unfold parseValidationSettingsUpdate at h
  split at h
  · cases h
    exact ⟨⟨by simp, by simp⟩, by simp, by simp, rfl⟩
  split at h
  · cases h
  split at h
  · cases h
  split at h
  · cases h
  split at h
  · cases h
  split at h
  · cases h
  rename_i rules _ hrules _ hfind _ _ _ _ _ statuses _ hstatuses
  cases h
  obtain ⟨hlen, hids⟩ := getMany_eq_some
    (fun _ _ _ hget => (getBounded_eq_some.1 hget).2) hrules
  obtain ⟨hlen', hids'⟩ := getMany_eq_some (P := fun e => -2 ^ 15 ≤ e.1 ∧ e.1 < 2 ^ 15)
    (fun _ e _ hget => by
      simp only [getStatusUpdate, Option.bind_eq_bind, Option.bind_eq_some_iff] at hget
      obtain ⟨⟨offset, _⟩, -, ⟨status, _⟩, -, hget⟩ := hget
      obtain ⟨rfl, -⟩ := Prod.mk.inj (Option.some.inj hget)
      dsimp only
      have hle := Int.le_bmod (x := ((offset + firstRuleId : ℕ) : ℤ)) (m := 2 ^ 16) (by omega)
      have hlt := Int.bmod_lt (x := ((offset + firstRuleId : ℕ) : ℤ)) (m := 2 ^ 16) (by omega)
      omega) hstatuses
  exact ⟨⟨hids, hids'⟩, hlen ▸ signedCount_lt _, hlen' ▸ signedCount_lt _, hfind⟩

lemma parse_of_encode (hsigma : SigmaRoundTrip sigmaSerialize sigmaParse) (hfits : u.Fits)
    (h : encodeValidationSettingsUpdate sigmaSerialize u = .ok bytes) :
    parseValidationSettingsUpdate sigmaParse bytes = .ok u ↔ u.Readable := by
  refine ⟨fun hparse => (readable_of_parse hparse).2, fun hread => ?_⟩
  obtain ⟨hrules, hstatuses, hfind⟩ := hread
  simp only [encodeValidationSettingsUpdate, bind_eq_ok] at h
  obtain ⟨statuses, hput, h⟩ := h
  cases h
  have hne : ∀ n rest, putVlq n ++ rest ≠ [] := by
    intro n rest hnil
    have := length_putVlq_pos n
    rw [(append_eq_nil_iff.1 hnil).1] at this
    simp at this
  have hmany := getMany_putStatusUpdates hsigma (fun e he => (hfits.statuses e he).2) hput []
  rw [append_nil] at hmany
  have hcount : ∀ n < 2 ^ 31, signedCount (n % 2 ^ 32) = n := by
    intro n hn
    rw [Nat.mod_eq_of_lt (by omega), signedCount, if_pos hn]
  rw [parseValidationSettingsUpdate, if_neg (hne _ _), getU32_putVlq (Nat.mod_lt _ (by omega))]
  simp only [hcount _ hrules]
  rw [getMany_of_forall (fun rule hrule => getU16_putVlq (hfits.rules rule hrule))]
  simp only [hfind]
  rw [getU32_putVlq (Nat.mod_lt _ (by omega))]
  simp only [hcount _ hstatuses, hmany]

lemma exists_encode_iff (hfits : u.Fits) :
    (∃ b, encodeValidationSettingsUpdate sigmaSerialize u = .ok b) ↔
      ∀ e ∈ u.statuses, 1000 ≤ e.1 ∧ ∃ b, sigmaSerialize e.2 = .ok b := by
  rw [← exists_putStatusUpdates (i := 0) (fun e he => (hfits.statuses e he).2)]
  simp [encodeValidationSettingsUpdate, bind_eq_ok]

/-- **The codec of validation-settings updates.** An update that can be written is read back
exactly if it has fewer than `2 ^ 31` rules and status changes and its rules may be disabled. Bytes
that parse give an update that can be written exactly if its status changes are of rules from 1000
on, with statuses that can be written; written again and parsed, it is the same update. -/
theorem validationSettingsUpdate_roundTrip (hsigma : SigmaRoundTrip sigmaSerialize sigmaParse) :
    (∀ u bytes, u.Fits → encodeValidationSettingsUpdate sigmaSerialize u = .ok bytes →
      (parseValidationSettingsUpdate sigmaParse bytes = .ok u ↔
        u.rules.length < 2 ^ 31 ∧ u.statuses.length < 2 ^ 31 ∧
          ∀ rule ∈ u.rules, ruleMayNotBeDisabled rule = false)) ∧
      ∀ bytes u, parseValidationSettingsUpdate sigmaParse bytes = .ok u →
        ((∃ b, encodeValidationSettingsUpdate sigmaSerialize u = .ok b) ↔
          ∀ e ∈ u.statuses, 1000 ≤ e.1 ∧ ∃ b, sigmaSerialize e.2 = .ok b) ∧
        ∀ b, encodeValidationSettingsUpdate sigmaSerialize u = .ok b →
          parseValidationSettingsUpdate sigmaParse b = .ok u := by
  refine ⟨fun u bytes hfits h => ?_, fun bytes u hparse => ?_⟩
  · rw [parse_of_encode hsigma hfits h]
    constructor
    · rintro ⟨hrules, hstatuses, hfind⟩
      exact ⟨hrules, hstatuses, fun rule hrule => by simpa using find?_eq_none.1 hfind rule hrule⟩
    · rintro ⟨hrules, hstatuses, hall⟩
      exact ⟨hrules, hstatuses, find?_eq_none.2 fun rule hrule => by simp [hall rule hrule]⟩
  · obtain ⟨hfits, hread⟩ := readable_of_parse hparse
    exact ⟨exists_encode_iff hfits, fun b hb => (parse_of_encode hsigma hfits hb).2 hread⟩

/-! ## Examples -/

def serializeFlag : RuleStatus → Except String Bytes
  | .enabled => .ok [1]
  | .disabled => .ok [0]
  | _ => .error "not a flag"

def parseFlag : Bytes → Option (RuleStatus × Bytes)
  | [] => none
  | b :: rest => some (if b = 0 then .disabled else .enabled, rest)

lemma sigmaRoundTrip_flag : SigmaRoundTrip serializeFlag parseFlag := by
  rintro (_ | _ | _ | _) bytes rest h
  all_goals
    simp only [serializeFlag, Except.ok.injEq, reduceCtorEq] at h
    try subst h; rfl

theorem validationSettingsUpdate_roundTrip_flag :
    parseValidationSettingsUpdate parseFlag [1, 0xd7, 1, 1, 2, 1, 7] =
        .ok { rules := [215], statuses := [(1002, .enabled)] } ∧
      parseValidationSettingsUpdate parseFlag [1, 0xd7, 1, 1, 2, 1] =
        .ok { rules := [215], statuses := [(1002, .enabled)] } :=
  have hparse : parseValidationSettingsUpdate parseFlag [1, 0xd7, 1, 1, 2, 1, 7] =
      .ok { rules := [215], statuses := [(1002, .enabled)] } := by decide +kernel
  ⟨hparse, ((validationSettingsUpdate_roundTrip sigmaRoundTrip_flag).2 _ _ hparse).2 _
    (by decide +kernel)⟩

/-- Offset 64536 wraps to rule 0, which is read and cannot be written; and `2 ^ 31` rules are
written and not read back. -/
theorem validationSettingsUpdate_not_roundTrip :
    (∃ u, parseValidationSettingsUpdate parseFlag [0, 1, 0x98, 0xf8, 3, 1] = .ok u ∧
      ∀ b, encodeValidationSettingsUpdate serializeFlag u ≠ .ok b) ∧
      ∃ u b, u.Fits ∧ (∀ rule ∈ u.rules, ruleMayNotBeDisabled rule = false) ∧
        encodeValidationSettingsUpdate serializeFlag u = .ok b ∧
        parseValidationSettingsUpdate parseFlag b ≠ .ok u := by
  obtain ⟨n, hn⟩ : ∃ n, 2 ^ 31 ≤ n := ⟨2 ^ 31, Nat.le_refl _⟩
  refine ⟨⟨{ statuses := [(0, .enabled)] }, by decide +kernel, fun b hb => ?_⟩,
    { rules := replicate n 215 }, _, ⟨fun rule hrule => ?_, by simp⟩, fun rule hrule => ?_, rfl,
    fun hparse => ?_⟩
  · have := (exists_encode_iff ⟨by simp, by simp⟩).1 ⟨b, hb⟩
    simp at this
  · rw [eq_of_mem_replicate hrule]
    decide
  · rw [eq_of_mem_replicate hrule]
    decide
  · have hcount := (readable_of_parse hparse).2.ruleCount
    rw [length_replicate] at hcount
    omega

end ErgoNode
