import Mathlib.Algebra.Order.Ring.Rat
import Mathlib.Data.List.Basic
import ProjectMaya.GovernanceValidator

/-! # Enforcement hints

`_build_enforcement_hints` on the texts of the reasons.  Either the rules of the policy speak, or
the heuristics do, of which only the first that matches is heard.  Among lists for which rules
speak, and among lists for which none does, a longer list is not treated more mildly
(`hints_monotone`); a rule that a further reason brings in silences the heuristics. -/

namespace ProjectMaya.ContextBuilder

open ProjectMaya.Vector (Text Value text)

/-! ## The hint of a list of texts -/

/-- `r.split(":", 1)[0]` -/
def rootOf (code : Text) : Text := code.takeWhile (· ≠ ':')

section

variable {ν : Type}

/-- The rules for the reasons, one after the other. -/
def rulesFor (policy : GovernancePolicy ν) (codes : List Text) : List (Rule ν) :=
  codes.filterMap fun c => policy.enforcementRules.lookup (String.ofList (rootOf c))

/-- What is suggested where no rule sets anything; `derivedTrust` is `details.get("derived_trust")`. -/
def heuristicHint [OfScientific ν] (codes : List Text) (derivedTrust : Option ν) :
    Option (EnforcementHint ν) :=
  if text "privacy_block" ∈ codes then
    some {
      blockFlag := some true
      redact := some [.dict [(text "reason", .str (text "privacy_block")),
        (text "note", .str (text "contains privacy-sensitive pattern"))]]
      note := some (text "Privacy-sensitive content matched; consider redaction or blocking.") }
  else if text "provider_denied" ∈ codes ∨ text "provider_not_allowed" ∈ codes then
    some { blockFlag := some true, note := some (text " Provider not allowed by policy.") }
  else if text "low_trust" ∈ codes then
    some {
      scoreAdjust := some (derivedTrust.getD 0.7)
      note := some (text " Low trust detected; suggest lowering score.") }
  else if codes.any fun c => (text "missing_provenance").isPrefixOf c then
    some { scoreAdjust := some 0.9, note := some (text " Missing provenance fields.") }
  else if text "category_blocked" ∈ codes then
    some { scoreAdjust := some 0.5, note := some (text " Category is blocked by policy.") }
  else none

/-- `_build_enforcement_hints` -/
def hintsOf [LinearOrder ν] [OfScientific ν] (policy : GovernancePolicy ν) (codes : List Text)
    (derivedTrust : Option ν) : Option (EnforcementHint ν) :=
  if (rulesFor policy codes).any Rule.sets then
    some ((rulesFor policy codes).foldl EnforcementHint.apply {})
  else heuristicHint codes derivedTrust

/-! ### The hints of the validator -/

theorem rootOf_code (r : Reason) : rootOf r.code = r.root.toList := by
  cases r with
  | missingProvenance fields =>
    show List.takeWhile _ ("missing_provenance:".toList ++ _) = _
    have hcolon : (List.takeWhile (· ≠ ':') "missing_provenance:".toList).length ≠
        "missing_provenance:".toList.length := by decide
    rw [List.takeWhile_append, if_neg hcolon]
    show _ = "missing_provenance".toList
    decide
  | _ => decide

theorem rulesFor_code (policy : GovernancePolicy ν) (reasons : List Reason) :
    rulesFor policy (reasons.map Reason.code) =
      reasons.filterMap fun r => policy.enforcementRules.lookup r.root := by
  unfold rulesFor
  rw [List.filterMap_map]
  refine List.filterMap_congr fun r _ => ?_
  rw [Function.comp_apply, rootOf_code, String.ofList_toList]

theorem code_mem_map {r : Reason} (h : ∀ fields, r ≠ .missingProvenance fields)
    (reasons : List Reason) : r.code ∈ reasons.map Reason.code ↔ r ∈ reasons := by
  rw [List.mem_map]
  refine ⟨?_, fun hr => ⟨r, hr, rfl⟩⟩
  rintro ⟨s, hs, hcode⟩
  have hroot : s.root = r.root := by
    rw [← String.ofList_toList (s := s.root), ← rootOf_code, hcode, rootOf_code, String.ofList_toList]
  have heq : s = r := by
    cases r with
    | missingProvenance fields => exact absurd rfl (h fields)
    | _ =>
      cases s with
      | missingProvenance fields => simp [Reason.root] at hroot
      | _ => first | rfl | simp [Reason.root] at hroot
  rw [← heq]
  exact hs

theorem any_missingProvenance (reasons : List Reason) :
    (reasons.map Reason.code).any (fun c => (text "missing_provenance").isPrefixOf c) =
      reasons.any fun r => r.root = "missing_provenance" := by
  rw [List.any_map]
  congr 1
  funext r
  cases r with
  | missingProvenance fields =>
    show List.isPrefixOf _ ("missing_provenance:".toList ++ _) = _
    rw [List.isPrefixOf_iff_prefix.2]
    · rfl
    · exact ⟨':' :: [','].intercalate fields, rfl⟩
  | _ => decide

/-- The hint that `validate` writes down. -/
theorem buildEnforcementHints_eq [LinearOrder ν] [OfScientific ν] (policy : GovernancePolicy ν)
    (reasons : List Reason) (details : Details ν) :
    buildEnforcementHints policy reasons details =
      hintsOf policy (reasons.map Reason.code) (some details.derivedTrust) := by
  have hheur : heuristicHint (reasons.map Reason.code) (some details.derivedTrust) =
      legacyHint reasons details := by
    have hprivacy := code_mem_map (r := .privacyBlock) (fun _ => Reason.noConfusion) reasons
    have hdenied := code_mem_map (r := .providerDenied) (fun _ => Reason.noConfusion) reasons
    have hallowed := code_mem_map (r := .providerNotAllowed) (fun _ => Reason.noConfusion) reasons
    have htrust := code_mem_map (r := .lowTrust) (fun _ => Reason.noConfusion) reasons
    have hcategory := code_mem_map (r := .categoryBlocked) (fun _ => Reason.noConfusion) reasons
    unfold heuristicHint legacyHint
    simp only [← hprivacy, ← hdenied, ← hallowed, ← htrust, ← hcategory, any_missingProvenance]
    rfl
  unfold hintsOf
  rw [hheur, rulesFor_code]
  rfl

/-! ## No milder -/

/-- `later` asks for no less than `hint`. -/
structure NoMilder [LE ν] (hint later : EnforcementHint ν) : Prop where
  block : hint.blockFlag = some true → later.blockFlag = some true
  redact : hint.redact.getD [] ⊆ later.redact.getD []
  score : ∀ x, hint.scoreAdjust = some x → ∃ y ≤ x, later.scoreAdjust = some y

/-- A rule for one of the reasons sets something. -/
def RulesSpeak (policy : GovernancePolicy ν) (codes : List Text) : Prop :=
  ∃ rule ∈ rulesFor policy codes, rule.sets = true

theorem rulesFor_subset (policy : GovernancePolicy ν) {codes more : List Text} (h : codes ⊆ more) :
    rulesFor policy codes ⊆ rulesFor policy more := by
  intro rule hrule
  obtain ⟨c, hc, hlookup⟩ := List.mem_filterMap.1 hrule
  exact List.mem_filterMap.2 ⟨c, h hc, hlookup⟩

theorem RulesSpeak.mono {policy : GovernancePolicy ν} {codes more : List Text} (h : codes ⊆ more)
    (hspeak : RulesSpeak policy codes) : RulesSpeak policy more := by
  obtain ⟨rule, hrule, hsets⟩ := hspeak
  exact ⟨rule, rulesFor_subset policy h hrule, hsets⟩

/-! ### Rules -/

variable [LinearOrder ν]

/-- What a rule can bring into a hint is in the end what one of the rules brought. -/
theorem foldl_apply_iff {P : EnforcementHint ν → Prop} {Q : Rule ν → Prop}
    (hstep : ∀ hint rule, P (hint.apply rule) ↔ P hint ∨ Q rule) (rules : List (Rule ν))
    (hint : EnforcementHint ν) :
    P (rules.foldl EnforcementHint.apply hint) ↔ P hint ∨ ∃ rule ∈ rules, Q rule := by
  induction rules generalizing hint with
  | nil => simp
  | cons rule rules ih =>
    rw [List.foldl_cons, ih, hstep, List.exists_mem_cons_iff, or_assoc]

theorem blockFlag_apply (hint : EnforcementHint ν) (rule : Rule ν) :
    (hint.apply rule).blockFlag = some true ↔
      hint.blockFlag = some true ∨ rule.blockFlag = true := by
  cases h : rule.blockFlag with
  | true => simp [EnforcementHint.apply, h]
  | false => simp [EnforcementHint.apply, h]

theorem mem_redact_apply (x : Value ν) (hint : EnforcementHint ν) (rule : Rule ν) :
    x ∈ (hint.apply rule).redact.getD [] ↔ x ∈ hint.redact.getD [] ∨ x ∈ rule.redact := by
  cases h : rule.redact with
  | nil => simp [EnforcementHint.apply, h]
  | cons y ys => simp [EnforcementHint.apply, h]

/-- The smaller adjustment is kept. -/
theorem scoreAdjust_apply (x : ν) (hint : EnforcementHint ν) (rule : Rule ν) :
    (∃ y ≤ x, (hint.apply rule).scoreAdjust = some y) ↔
      (∃ y ≤ x, hint.scoreAdjust = some y) ∨ ∃ y ≤ x, rule.scoreAdjust = some y := by
  cases hrule : rule.scoreAdjust with
  | none => simp [EnforcementHint.apply, hrule]
  | some a =>
    cases hhint : hint.scoreAdjust with
    | none => simp [EnforcementHint.apply, hrule, hhint]
    | some b => simp [EnforcementHint.apply, hrule, hhint]

theorem blockFlag_foldl (rules : List (Rule ν)) :
    (rules.foldl EnforcementHint.apply {}).blockFlag = some true ↔
      ∃ rule ∈ rules, rule.blockFlag = true := by
  rw [foldl_apply_iff (P := fun hint => hint.blockFlag = some true) blockFlag_apply rules {}]
  simp

theorem mem_redact_foldl (x : Value ν) (rules : List (Rule ν)) :
    x ∈ (rules.foldl EnforcementHint.apply {}).redact.getD [] ↔ ∃ rule ∈ rules, x ∈ rule.redact := by
  rw [foldl_apply_iff (P := fun hint => x ∈ hint.redact.getD []) (mem_redact_apply x) rules {}]
  simp

theorem scoreAdjust_foldl (x : ν) (rules : List (Rule ν)) :
    (∃ y ≤ x, (rules.foldl EnforcementHint.apply {}).scoreAdjust = some y) ↔
      ∃ rule ∈ rules, ∃ y ≤ x, rule.scoreAdjust = some y := by
  rw [foldl_apply_iff (P := fun hint => ∃ y ≤ x, hint.scoreAdjust = some y) (scoreAdjust_apply x) rules
    {}]
  simp

/-- **More rules are no milder.** -/
theorem noMilder_foldl {rules more : List (Rule ν)} (h : rules ⊆ more) :
    NoMilder (rules.foldl EnforcementHint.apply {}) (more.foldl EnforcementHint.apply {}) := by
  constructor
  case block =>
    intro hblock
    obtain ⟨rule, hrule, hflag⟩ := (blockFlag_foldl rules).1 hblock
    exact (blockFlag_foldl more).2 ⟨rule, h hrule, hflag⟩
  case redact =>
    intro x hx
    obtain ⟨rule, hrule, hredact⟩ := (mem_redact_foldl x rules).1 hx
    exact (mem_redact_foldl x more).2 ⟨rule, h hrule, hredact⟩
  case score =>
    intro x hx
    obtain ⟨rule, hrule, hle⟩ := (scoreAdjust_foldl x rules).1 ⟨x, le_rfl, hx⟩
    exact (scoreAdjust_foldl x more).2 ⟨rule, h hrule, hle⟩

omit [LinearOrder ν] in
theorem any_sets_iff (policy : GovernancePolicy ν) (codes : List Text) :
    (rulesFor policy codes).any Rule.sets = true ↔ RulesSpeak policy codes := List.any_eq_true

/-! ### Heuristics -/

/-- The place of a reason in the order of the heuristics, which are five. -/
def place (code : Text) : Nat :=
  if code = text "privacy_block" then 0
  else if code = text "provider_denied" ∨ code = text "provider_not_allowed" then 1
  else if code = text "low_trust" then 2
  else if (text "missing_provenance").isPrefixOf code then 3
  else if code = text "category_blocked" then 4
  else 5

/-- The place of the heuristic that is heard. -/
def first (codes : List Text) : Nat := codes.foldr (fun c n => min (place c) n) 5

theorem first_le_five (codes : List Text) : first codes ≤ 5 := by
  induction codes with
  | nil => exact le_rfl
  | cons c codes ih =>
    show min (place c) (first codes) ≤ 5
    omega

theorem first_le {codes : List Text} {c : Text} (h : c ∈ codes) : first codes ≤ place c := by
  induction codes with
  | nil => cases h
  | cons d codes ih =>
    show min (place d) (first codes) ≤ place c
    rcases List.mem_cons.1 h with rfl | hc
    · omega
    · have hle := ih hc
      omega

theorem first_attained (codes : List Text) : first codes = 5 ∨ ∃ c ∈ codes, place c = first codes := by
  induction codes with
  | nil => exact .inl rfl
  | cons d codes ih =>
    show min (place d) (first codes) = 5 ∨ ∃ c ∈ d :: codes, place c = min (place d) (first codes)
    by_cases hd : place d ≤ first codes
    · exact .inr ⟨d, List.mem_cons_self, by omega⟩
    · rcases ih with h5 | ⟨c, hc, hplace⟩
      · left
        omega
      · exact .inr ⟨c, List.mem_cons_of_mem d hc, by omega⟩

theorem first_anti {codes more : List Text} (h : codes ⊆ more) : first more ≤ first codes := by
  rcases first_attained codes with h5 | ⟨c, hc, hplace⟩
  · have hle := first_le_five more
    omega
  · have hle := first_le (h hc)
    omega

theorem first_eq {codes : List Text} {n : Nat} (hle : n ≤ first codes)
    (h : ∃ c ∈ codes, place c = n) : first codes = n := by
  obtain ⟨c, hc, hplace⟩ := h
  have hfirst := first_le hc
  omega

theorem succ_le_first {codes : List Text} {n : Nat} (hn : n < 5) (hle : n ≤ first codes)
    (h : ¬ ∃ c ∈ codes, place c = n) : n + 1 ≤ first codes := by
  have hne : first codes ≠ n := by
    rcases first_attained codes with h5 | hattained
    · omega
    · rintro rfl
      exact h hattained
  omega

theorem place_eq_zero (c : Text) : place c = 0 ↔ c = text "privacy_block" := by
  unfold place
  split_ifs with h0 h1 h2 h3 h4 <;> simp_all

theorem place_eq_one (c : Text) :
    place c = 1 ↔ c = text "provider_denied" ∨ c = text "provider_not_allowed" := by
  unfold place
  split_ifs with h0 h1 h2 h3 h4
  · subst h0
    decide
  · simp [h1]
  all_goals simp [h1]

theorem place_eq_two (c : Text) : place c = 2 ↔ c = text "low_trust" := by
  unfold place
  split_ifs with h0 h1 h2 h3 h4
  · subst h0
    decide
  · rcases h1 with rfl | rfl <;> decide
  · simp [h2]
  all_goals simp [h2]

theorem place_eq_three (c : Text) : place c = 3 ↔ (text "missing_provenance").isPrefixOf c = true := by
  unfold place
  split_ifs with h0 h1 h2 h3 h4
  · subst h0
    decide
  · rcases h1 with rfl | rfl <;> decide
  · subst h2
    decide
  · simp [h3]
  all_goals simp [h3]

theorem place_eq_four (c : Text) : place c = 4 ↔ c = text "category_blocked" := by
  unfold place
  split_ifs with h0 h1 h2 h3 h4
  · subst h0
    decide
  · rcases h1 with rfl | rfl <;> decide
  · subst h2
    decide
  · constructor
    · intro h
      cases h
    · rintro rfl
      revert h3
      decide
  · simp [h4]
  · simp [h4]

variable [OfScientific ν]

/-- What the heuristic at a place suggests. -/
def hintAt (derivedTrust : Option ν) : Nat → Option (EnforcementHint ν)
  | 0 => some {
      blockFlag := some true
      redact := some [.dict [(text "reason", .str (text "privacy_block")),
        (text "note", .str (text "contains privacy-sensitive pattern"))]]
      note := some (text "Privacy-sensitive content matched; consider redaction or blocking.") }
  | 1 => some { blockFlag := some true, note := some (text " Provider not allowed by policy.") }
  | 2 => some {
      scoreAdjust := some (derivedTrust.getD 0.7)
      note := some (text " Low trust detected; suggest lowering score.") }
  | 3 => some { scoreAdjust := some 0.9, note := some (text " Missing provenance fields.") }
  | 4 => some { scoreAdjust := some 0.5, note := some (text " Category is blocked by policy.") }
  | _ => none

omit [LinearOrder ν] in
/-- The heuristics are heard by the first reason in their order. -/
theorem heuristicHint_eq (codes : List Text) (derivedTrust : Option ν) :
    heuristicHint codes derivedTrust = hintAt derivedTrust (first codes) := by
  have h0 : text "privacy_block" ∈ codes ↔ ∃ c ∈ codes, place c = 0 := by
    simp only [place_eq_zero, exists_eq_right]
  have h1 : text "provider_denied" ∈ codes ∨ text "provider_not_allowed" ∈ codes ↔
      ∃ c ∈ codes, place c = 1 := by
    simp only [place_eq_one, and_or_left, exists_or, exists_eq_right]
  have h2 : text "low_trust" ∈ codes ↔ ∃ c ∈ codes, place c = 2 := by
    simp only [place_eq_two, exists_eq_right]
  have h3 : (codes.any fun c => (text "missing_provenance").isPrefixOf c) = true ↔
      ∃ c ∈ codes, place c = 3 := by
    simp only [place_eq_three, List.any_eq_true]
  have h4 : text "category_blocked" ∈ codes ↔ ∃ c ∈ codes, place c = 4 := by
    simp only [place_eq_four, exists_eq_right]
  unfold heuristicHint
  simp only [h0, h1, h2, h3, h4]
  by_cases h0 : ∃ c ∈ codes, place c = 0
  · rw [if_pos h0, first_eq (Nat.zero_le _) h0]
    rfl
  have hle := succ_le_first (by omega) (Nat.zero_le _) h0
  by_cases h1 : ∃ c ∈ codes, place c = 1
  · rw [if_neg h0, if_pos h1, first_eq hle h1]
    rfl
  replace hle := succ_le_first (by omega) hle h1
  by_cases h2 : ∃ c ∈ codes, place c = 2
  · rw [if_neg h0, if_neg h1, if_pos h2, first_eq hle h2]
    rfl
  replace hle := succ_le_first (by omega) hle h2
  by_cases h3 : ∃ c ∈ codes, place c = 3
  · rw [if_neg h0, if_neg h1, if_neg h2, if_pos h3, first_eq hle h3]
    rfl
  replace hle := succ_le_first (by omega) hle h3
  by_cases h4 : ∃ c ∈ codes, place c = 4
  · rw [if_neg h0, if_neg h1, if_neg h2, if_neg h3, if_pos h4, first_eq hle h4]
    rfl
  replace hle := succ_le_first (by omega) hle h4
  rw [if_neg h0, if_neg h1, if_neg h2, if_neg h3, if_neg h4,
    Nat.le_antisymm (first_le_five codes) hle]
  rfl

omit [LinearOrder ν] in
/-- An earlier heuristic blocks and redacts no less. -/
theorem hintAt_anti (derivedTrust : Option ν) {m n : Nat} (h : m ≤ n) :
    (((hintAt derivedTrust n).getD {}).blockFlag = some true →
      ((hintAt derivedTrust m).getD {}).blockFlag = some true) ∧
    ((hintAt derivedTrust n).getD {}).redact.getD [] ⊆
      ((hintAt derivedTrust m).getD {}).redact.getD [] := by
  match n, m with
  | 0, 0 => exact ⟨id, List.Subset.refl _⟩
  | 1, 0 => exact ⟨fun _ => rfl, List.nil_subset _⟩
  | 1, 1 => exact ⟨id, List.Subset.refl _⟩
  | n + 2, m =>
    have hnone : ((hintAt derivedTrust (n + 2)).getD {}).blockFlag = none ∧
        ((hintAt derivedTrust (n + 2)).getD {}).redact = none := by
      match n with
      | 0 | 1 | 2 | _ + 3 => exact ⟨rfl, rfl⟩
    rw [hnone.1, hnone.2]
    refine ⟨?_, List.nil_subset _⟩
    intro hflag
    cases hflag

/-! ## The hints of a longer list -/

/-- The hint, where no hint is one that asks for nothing. -/
def hint (policy : GovernancePolicy ν) (derivedTrust : Option ν) (codes : List Text) :
    EnforcementHint ν :=
  (hintsOf policy codes derivedTrust).getD {}

theorem hint_of_rules {policy : GovernancePolicy ν} {codes : List Text}
    (h : RulesSpeak policy codes) (derivedTrust : Option ν) :
    hint policy derivedTrust codes = (rulesFor policy codes).foldl EnforcementHint.apply {} := by
  unfold hint hintsOf
  rw [if_pos ((any_sets_iff policy codes).2 h)]
  rfl

theorem hint_of_heuristics {policy : GovernancePolicy ν} {codes : List Text}
    (h : ¬ RulesSpeak policy codes) (derivedTrust : Option ν) :
    hint policy derivedTrust codes = (hintAt derivedTrust (first codes)).getD {} := by
  unfold hint hintsOf
  rw [if_neg fun hany => h ((any_sets_iff policy codes).1 hany), heuristicHint_eq]

/-- A score that the heuristics lower is lowered as much for a longer list, or an earlier reason is
heard there. -/
theorem score_of_heuristics {policy : GovernancePolicy ν} {codes more : List Text}
    (h : codes ⊆ more) (hsilent : ¬ RulesSpeak policy more) {derivedTrust : Option ν} {x : ν}
    (hx : (hint policy derivedTrust codes).scoreAdjust = some x) :
    (hint policy derivedTrust more).scoreAdjust = some x ∨
      ∃ c ∈ more, ∀ d ∈ codes, place c < place d := by
  rw [hint_of_heuristics fun hspeak => hsilent (hspeak.mono h)] at hx
  rw [hint_of_heuristics hsilent]
  rcases Nat.eq_or_lt_of_le (first_anti h) with heq | hlt
  · left
    rw [heq]
    exact hx
  · right
    rcases first_attained more with h5 | ⟨c, hc, hplace⟩
    · have hle := first_le_five codes
      omega
    · refine ⟨c, hc, fun d hd => ?_⟩
      have hle := first_le hd
      omega

/-- The reasons that block. -/
def blocking : List Text :=
  [text "privacy_block", text "provider_denied", text "provider_not_allowed"]

/-- Where no rule speaks, each of them sets `block_flag`. -/
theorem block_of_heuristics {policy : GovernancePolicy ν} {codes : List Text}
    (hsilent : ¬ RulesSpeak policy codes) (derivedTrust : Option ν)
    (h : ∃ c ∈ blocking, c ∈ codes) : (hint policy derivedTrust codes).blockFlag = some true := by
  obtain ⟨c, hblocking, hc⟩ := h
  have hplace : ∀ c ∈ blocking, place c ≤ 1 := by decide
  have hle : first codes ≤ 1 := (first_le hc).trans (hplace c hblocking)
  rw [hint_of_heuristics hsilent]
  exact (hintAt_anti derivedTrust hle).1 rfl

/-- **Hints grow with the reasons**, among lists for which rules speak and among lists for which
none does. -/
theorem hints_monotone (policy : GovernancePolicy ν) (derivedTrust : Option ν)
    (codes more : List Text) (h : codes ⊆ more) :
    (RulesSpeak policy codes →
      NoMilder (hint policy derivedTrust codes) (hint policy derivedTrust more)) ∧
    (¬ RulesSpeak policy more →
      ((hint policy derivedTrust codes).blockFlag = some true →
        (hint policy derivedTrust more).blockFlag = some true) ∧
      (hint policy derivedTrust codes).redact.getD [] ⊆
        (hint policy derivedTrust more).redact.getD [] ∧
      ∀ x, (hint policy derivedTrust codes).scoreAdjust = some x →
        (hint policy derivedTrust more).scoreAdjust = some x ∨
          ∃ c ∈ more, ∀ d ∈ codes, place c < place d) ∧
    (¬ RulesSpeak policy codes → (∃ c ∈ blocking, c ∈ codes) →
      (hint policy derivedTrust codes).blockFlag = some true) := by
  refine ⟨?_, ?_, fun hsilent => block_of_heuristics hsilent derivedTrust⟩
  · intro hspeak
    rw [hint_of_rules hspeak, hint_of_rules (hspeak.mono h)]
    exact noMilder_foldl (rulesFor_subset policy h)
  · intro hsilent
    have hanti := hintAt_anti derivedTrust (first_anti h)
    refine ⟨?_, ?_, fun x => score_of_heuristics h hsilent⟩
    · rw [hint_of_heuristics hsilent, hint_of_heuristics fun hspeak => hsilent (hspeak.mono h)]
      exact hanti.1
    · rw [hint_of_heuristics hsilent, hint_of_heuristics fun hspeak => hsilent (hspeak.mono h)]
      exact hanti.2

end

namespace Sample

/-- A policy with a rule for little trust, which lowers the score. -/
def trusting : GovernancePolicy Rat where
  minTrust := 0
  enforcementRules := [("low_trust", { scoreAdjust := some 0.6 })]

def low : List Text := [text "low_trust"]

def matched : List Text := [text "privacy_block"]

def matchedAndLow : List Text := [text "privacy_block", text "low_trust"]

def category : List Text := [text "category_blocked"]

def categoryAndMissing : List Text := [text "category_blocked", text "missing_provenance:author"]

theorem rules_speak_of_low : RulesSpeak trusting low :=
  (any_sets_iff trusting low).1 (by decide +kernel)

theorem rules_silent_on_matched : ¬ RulesSpeak trusting matched := by
  rw [← any_sets_iff]
  decide +kernel

/-- A matched pattern as well: the score stays lowered, and where only the pattern matched, no rule
speaks and the block is suggested. -/
theorem matched_as_well :
    NoMilder (hint trusting none low) (hint trusting none matchedAndLow) ∧
      (hint trusting none matched).blockFlag = some true := by
  have hlow : low ⊆ matchedAndLow := List.subset_cons_self _ _
  have hmatched : matched ⊆ matched := List.Subset.refl _
  constructor
  · exact (hints_monotone trusting none low matchedAndLow hlow).1 rules_speak_of_low
  · refine (hints_monotone trusting none matched matched hmatched).2.2 rules_silent_on_matched ?_
    exact ⟨text "privacy_block", List.mem_cons_self, List.mem_cons_self⟩

/-- The rule for a further reason takes the block away, and a further reason that the heuristics
look for earlier raises the score. -/
theorem block_taken_away :
    matched ⊆ matchedAndLow ∧
    ¬ NoMilder (hint trusting none matched) (hint trusting none matchedAndLow) ∧
    (∀ c ∈ blocking, rulesFor trusting [c] = []) ∧ (∃ c ∈ blocking, c ∈ matchedAndLow) ∧
    (hint trusting none matchedAndLow).blockFlag = none ∧
    category ⊆ categoryAndMissing ∧
    ¬ NoMilder (hint trusting none category) (hint trusting none categoryAndMissing) := by
  have hblock : (hint trusting none matched).blockFlag = some true := by decide +kernel
  have hnone : (hint trusting none matchedAndLow).blockFlag = none := by decide +kernel
  have hhalf : (hint trusting none category).scoreAdjust = some 0.5 := by decide +kernel
  have hnine : (hint trusting none categoryAndMissing).scoreAdjust = some 0.9 := by decide +kernel
  refine ⟨List.cons_subset_cons _ (List.nil_subset _), ?_, ?_, ?_, hnone,
    List.cons_subset_cons _ (List.nil_subset _), ?_⟩
  · intro hmilder
    have hflag := hmilder.block hblock
    rw [hnone] at hflag
    cases hflag
  · intro c hc
    have hlookup : ∀ c ∈ blocking, trusting.enforcementRules.lookup (String.ofList (rootOf c)) = none := by
      unfold blocking
      intro c hc
      rcases List.mem_cons.1 hc with rfl | hc
      · rfl
      rcases List.mem_cons.1 hc with rfl | hc
      · rfl
      rw [List.mem_singleton.1 hc]
      rfl
    unfold rulesFor
    rw [List.filterMap_cons, hlookup c hc]
    rfl
  · exact ⟨text "privacy_block", List.mem_cons_self, List.mem_cons_self⟩
  · intro hmilder
    obtain ⟨y, hle, hy⟩ := hmilder.score 0.5 hhalf
    rw [hnine] at hy
    cases hy
    revert hle
    decide +kernel

end Sample

end ProjectMaya.ContextBuilder
