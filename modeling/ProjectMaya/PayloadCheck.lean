import ProjectMaya.Payload
import ProjectMaya.Logic.JsonRoundTrip

/-! # What the payload check sees

`check` goes through the values of a payload, and through those of the JSON texts that `json.loads`
reads for it.  It never looks at a name as a text, at a member that a later one of its name
overwrites, or into a text whose integers are too long to be read.  An accepted payload is clean
exactly when nothing is wrong with what it overlooks (`checkedPayload_complete_iff`). -/

namespace ProjectMaya.Plugin.PayloadCheck

open Logic
open Logic.JsonRead (FloatText Point collapse collapseItems collapseMembers put)

variable {ν : Type}

/-! ## JSON texts -/

/-- A text of JSON; a surrogate that stands alone is shown as U+FFFD, which is in none of the
classes and none of the words of the pattern either. -/
def ofText (t : JsonRead.Text) : String :=
  String.ofList (t.map fun
    | .char c => c
    | .lone _ => '\ufffd')

mutual

/-- The object that stands for a value of JSON. -/
def ofValue : JsonRead.Value ν → Payload ν
  | .null => .none
  | .bool b => .bool b
  | .int n => .int n
  | .float x => .float x
  | .str s => .str (ofText s)
  | .arr items => .list false (ofItems items)
  | .obj members => .mapping true (ofMembers members)

def ofItems : List (JsonRead.Value ν) → List (Payload ν)
  | [] => []
  | v :: rest => ofValue v :: ofItems rest

def ofMembers : List (JsonRead.Text × JsonRead.Value ν) → List (Key × Payload ν)
  | [] => []
  | (k, v) :: rest => (.str (ofText k), ofValue v) :: ofMembers rest

end

mutual

/-- An integer has more digits than `json.loads` reads. -/
def tooLong (limit : Nat) : JsonRead.Value ν → Bool
  | .int n => limit ≠ 0 && limit < (Nat.toDigits 10 n.natAbs).length
  | .arr items => tooLongItems limit items
  | .obj members => tooLongMembers limit members
  | _ => false

def tooLongItems (limit : Nat) : List (JsonRead.Value ν) → Bool
  | [] => false
  | v :: rest => tooLong limit v || tooLongItems limit rest

def tooLongMembers (limit : Nat) : List (JsonRead.Text × JsonRead.Value ν) → Bool
  | [] => false
  | (_, v) :: rest => tooLong limit v || tooLongMembers limit rest

end

theorem ofItems_eq_map (items : List (JsonRead.Value ν)) : ofItems items = items.map ofValue := by
  induction items with
  | nil => rfl
  | cons v rest ih => rw [ofItems, ih, List.map_cons]

theorem ofMembers_eq_map (members : List (JsonRead.Text × JsonRead.Value ν)) :
    ofMembers members = members.map fun m => (.str (ofText m.1), ofValue m.2) := by
  induction members with
  | nil => rfl
  | cons m rest ih =>
    obtain ⟨k, v⟩ := m
    rw [ofMembers, ih, List.map_cons]

section

variable [FloatText ν]

/-- The object or array that a text is the JSON of, with every member that it has. -/
def encoded (s : String) : Option (JsonRead.Value ν) :=
  match JsonRead.read (JsonRead.chars s.toList) with
  | some (.arr items) => some (.arr items)
  | some (.obj members) => some (.obj members)
  | _ => none

variable [Python ν]

/-- What `str.isspace` and `json.loads` are, on the texts of objects and arrays: an integer that is
too long is a `ValueError`, and a text may be too much for the interpreter. -/
structure JsonModule (ν : Type) [FloatText ν] [Python ν] : Prop where
  space : ∀ c, JsonRead.isBlank c = true → Python.isSpace ν c = true
  bracket : ∀ c, c = '{' ∨ c = '[' → Python.isSpace ν c = false
  loads : ∀ s (v : JsonRead.Value ν), encoded s = some v →
    (∃ e, Python.loads s = (.error e : Except Raised (Option (Payload ν)))) ∨
      Python.loads s =
        .ok (if tooLong (Python.maxStrDigits ν) v then none else some (ofValue (collapse v)))

/-! ## What there is, and what the check sees of it -/

/-- What occurs in a payload at any depth: items, values, names, and what the texts among them are
the JSON of. -/
inductive Found (p : Payload ν) : Payload ν → Prop where
  | self : Found p p
  | item {t : Bool} {items : List (Payload ν)} {x : Payload ν} :
      Found p (.list t items) → x ∈ items → Found p x
  | value {d : Bool} {items : List (Key × Payload ν)} {k : Key} {x : Payload ν} :
      Found p (.mapping d items) → (k, x) ∈ items → Found p x
  | name {d : Bool} {items : List (Key × Payload ν)} {s : String} {x : Payload ν} :
      Found p (.mapping d items) → (.str s, x) ∈ items → Found p (.str s)
  | text {s : String} {v : JsonRead.Value ν} :
      Found p (.str s) → encoded s = some v → Found p (ofValue v)

/-- What `check` looks at. -/
inductive Seen (p : Payload ν) : Payload ν → Prop where
  | self : Seen p p
  | item {t : Bool} {items : List (Payload ν)} {x : Payload ν} :
      Seen p (.list t items) → x ∈ items → Seen p x
  | value {d : Bool} {items : List (Key × Payload ν)} {k : Key} {x : Payload ν} :
      Seen p (.mapping d items) → (k, x) ∈ items → Seen p x
  | text {s : String} {decoded : Payload ν} :
      Seen p (.str s) → looksEncoded ν s = true → Python.loads s = .ok (some decoded) →
        Seen p decoded

/-- What it does not look at: a name as a text, a member with a later one of its name, what is in
a text that is not read for an integer too long, and whatever is below these. -/
inductive Overlooked (p : Payload ν) : Payload ν → Prop where
  | name {d : Bool} {items : List (Key × Payload ν)} {s : String} {x : Payload ν} :
      Found p (.mapping d items) → (.str s, x) ∈ items → Overlooked p (.str s)
  | overwritten {d : Bool} {before after : List (Key × Payload ν)} {k : Key} {x : Payload ν} :
      Found p (.mapping d (before ++ (k, x) :: after)) → k ∈ after.map Prod.fst → Overlooked p x
  | refused {s : String} {v : JsonRead.Value ν} :
      Found p (.str s) → encoded s = some v → tooLong (Python.maxStrDigits ν) v = true →
        Overlooked p (ofValue v)
  | item {t : Bool} {items : List (Payload ν)} {x : Payload ν} :
      Overlooked p (.list t items) → x ∈ items → Overlooked p x
  | value {d : Bool} {items : List (Key × Payload ν)} {k : Key} {x : Payload ν} :
      Overlooked p (.mapping d items) → (k, x) ∈ items → Overlooked p x
  | text {s : String} {v : JsonRead.Value ν} :
      Overlooked p (.str s) → encoded s = some v → Overlooked p (ofValue v)

/-- No secret in a text, and no name of a secret in a mapping. -/
def Fine : Payload ν → Prop
  | .str s => (secret ν).search s = false
  | .mapping _ items => ∀ item ∈ items, ∃ s, item.1 = .str s ∧
      secretFields.contains (Python.lower ν s) = false
  | _ => True

omit [Python ν] in
/-- The parts of a payload as it is, without what its texts are the JSON of. -/
inductive Part (p : Payload ν) : Payload ν → Prop where
  | self : Part p p
  | item {t : Bool} {items : List (Payload ν)} {x : Payload ν} :
      Part p (.list t items) → x ∈ items → Part p x
  | value {d : Bool} {items : List (Key × Payload ν)} {k : Key} {x : Payload ν} :
      Part p (.mapping d items) → (k, x) ∈ items → Part p x

/-- A leaf is null, a truth value, a finite number or a text. -/
def Leaf : Payload ν → Prop
  | .float x => Python.isFinite x = true
  | .path _ => False
  | .object => False
  | _ => True

/-- What the check promises of a payload that it gives the text of. -/
structure Complete (p : Payload ν) (text : String) : Prop where
  fine : ∀ v, Found p v → Fine v
  leaves : ∀ v, Part p v → Leaf v
  encoding : dumps (Python.recursionLimit ν) p = .ok text.toList
  size : (utf8 text.toList).length ≤ maxPayloadBytes

/-! ## The check -/

theorem Overlooked.found {p v : Payload ν} (h : Overlooked p v) : Found p v := by
  induction h with
  | name hfound hmem => exact hfound.name hmem
  | overwritten hfound _ => exact hfound.value (List.mem_append_right _ List.mem_cons_self)
  | refused hfound hencoded _ => exact hfound.text hencoded
  | item _ hmem ih => exact ih.item hmem
  | value _ hmem ih => exact ih.value hmem
  | text _ hencoded ih => exact ih.text hencoded

omit [FloatText ν] in
/-- What passes the check is fine, and so far as it is looked into passes the check. -/
theorem check_list {t : Bool} {items : List (Payload ν)} {depth : Nat}
    (h : check depth (.list t items) = .ok ()) {x : Payload ν} (hx : x ∈ items) :
    ∃ depth, check depth x = .ok () := by
  cases depth with
  | zero => cases h
  | succ depth =>
    have hall : items.forM (check depth) = .ok () := h
    exact ⟨depth, forM_eq_ok.1 hall x hx⟩

omit [FloatText ν] in
theorem check_mapping {d : Bool} {items : List (Key × Payload ν)} {depth : Nat}
    (h : check depth (.mapping d items) = .ok ()) {item : Key × Payload ν} (hitem : item ∈ items) :
    checkKey ν item.1 = .ok () ∧ ∃ depth, check depth item.2 = .ok () := by
  cases depth with
  | zero => cases h
  | succ depth =>
    have hall : (items.forM fun item => do
      checkKey ν item.1
      check depth item.2) = .ok () := h
    have hone := forM_eq_ok.1 hall item hitem
    obtain ⟨_, hkey, hvalue⟩ := bind_eq_ok.1 hone
    exact ⟨hkey, depth, hvalue⟩

omit [FloatText ν] in
theorem check_str {s : String} {depth : Nat} (h : check depth (.str s : Payload ν) = .ok ()) :
    (secret ν).search s = false ∧ (looksEncoded ν s = true →
      ∃ decoded, Python.loads s = (.ok decoded : Except Raised (Option (Payload ν))) ∧
        ∀ v, decoded = some v → ∃ depth, check depth v = .ok ()) := by
  cases depth with
  | zero => cases h
  | succ depth =>
    rw [check] at h
    obtain ⟨_, hsecret, hrest⟩ := bind_eq_ok.1 h
    refine ⟨by simpa using ensure_eq_ok.1 hsecret, fun hlooks => ?_⟩
    rw [if_pos hlooks] at hrest
    obtain ⟨decoded, hloads, hdecoded⟩ := bind_eq_ok.1 hrest
    refine ⟨decoded, hloads, ?_⟩
    rintro v rfl
    exact ⟨depth, hdecoded⟩

omit [FloatText ν] in
theorem fine_of_check {v : Payload ν} {depth : Nat} (h : check depth v = .ok ()) : Fine v := by
  cases v with
  | str s => exact (check_str h).1
  | mapping d items =>
    intro item hitem
    obtain ⟨hkey, -⟩ := check_mapping h hitem
    cases hk : item.1 with
    | str s =>
      rw [hk] at hkey
      exact ⟨s, rfl, by simpa using ensure_eq_ok.1 hkey⟩
    | other =>
      rw [hk] at hkey
      cases hkey
  | none => trivial
  | bool b => trivial
  | int n => trivial
  | float x => trivial
  | list t items => trivial
  | path p => trivial
  | object => trivial

omit [FloatText ν] in
/-- All that the check looks at has passed it. -/
theorem check_seen {p v : Payload ν} {depth : Nat} (h : check depth p = .ok ()) (hv : Seen p v) :
    ∃ depth, check depth v = .ok () := by
  induction hv with
  | self => exact ⟨depth, h⟩
  | item _ hmem ih =>
    obtain ⟨depth, hlist⟩ := ih
    exact check_list hlist hmem
  | value _ hmem ih =>
    obtain ⟨depth, hmapping⟩ := ih
    exact (check_mapping hmapping hmem).2
  | text _ hlooks hloads ih =>
    obtain ⟨depth, hstr⟩ := ih
    obtain ⟨decoded, hdecoded, hcheck⟩ := (check_str hstr).2 hlooks
    rw [hloads] at hdecoded
    exact hcheck _ (Except.ok.inj hdecoded).symm

/-! ## What is found is seen or overlooked -/

omit [FloatText ν] in
/-- What is fine with the last members only has no name of a secret with all of them. -/
theorem fine_of_collapse {v : JsonRead.Value ν} (h : Fine (ofValue (collapse v))) :
    Fine (ofValue v) := by
  cases v with
  | obj members =>
    simp only [collapse, ofValue, ofMembers_eq_map] at h ⊢
    rintro item hitem
    obtain ⟨m, hm, rfl⟩ := List.mem_map.1 hitem
    have hname : m.1 ∈ (collapseMembers members).map Prod.fst := by
      rw [JsonRead.collapseMembers_eq_map, List.map_map]
      exact List.mem_map.2 ⟨m, hm, rfl⟩
    obtain ⟨x, hx, hkey⟩ := List.mem_map.1 (JsonRead.name_mem_foldl_put (.inr hname))
    obtain ⟨s, hs, hfine⟩ := h _ (List.mem_map.2 ⟨x, hx, rfl⟩)
    exact ⟨s, hkey ▸ hs, hfine⟩
  | null => exact h
  | bool b => exact h
  | int n => exact h
  | float x => exact h
  | str s => exact h
  | arr items => trivial

/-- Looked at as it is, or with the last members only. -/
def Looked (p v : Payload ν) : Prop :=
  Seen p v ∨ ∃ w : JsonRead.Value ν, v = ofValue w ∧ Seen p (ofValue (collapse w))

omit [FloatText ν] in
theorem Looked.item {p x : Payload ν} {t : Bool} {items : List (Payload ν)}
    (h : Looked p (.list t items)) (hx : x ∈ items) : Looked p x := by
  rcases h with h | ⟨w, heq, h⟩
  · exact .inl (h.item hx)
  · cases w with
    | arr ws =>
      simp only [ofValue, ofItems_eq_map, Payload.list.injEq] at heq
      obtain ⟨rfl, rfl⟩ := heq
      obtain ⟨w, hw, rfl⟩ := List.mem_map.1 hx
      simp only [collapse, ofValue, ofItems_eq_map, JsonRead.collapseItems_eq_map] at h
      exact .inr ⟨w, rfl, h.item (List.mem_map.2 ⟨collapse w, List.mem_map.2 ⟨w, hw, rfl⟩, rfl⟩)⟩
    | null => cases heq
    | bool b => cases heq
    | int n => cases heq
    | float y => cases heq
    | str s => cases heq
    | obj ms => cases heq

omit [FloatText ν] in
theorem Looked.value {p x : Payload ν} {d : Bool} {before after : List (Key × Payload ν)} {k : Key}
    (h : Looked p (.mapping d (before ++ (k, x) :: after))) (hk : k ∉ after.map Prod.fst) :
    Looked p x := by
  rcases h with h | ⟨w, heq, h⟩
  · exact .inl (h.value (List.mem_append_right _ List.mem_cons_self))
  · cases w with
    | obj ms =>
      simp only [ofValue, ofMembers_eq_map, Payload.mapping.injEq] at heq
      obtain ⟨rfl, heq⟩ := heq
      obtain ⟨b, ma, rfl, rfl, hma⟩ := List.map_eq_append_iff.1 heq.symm
      obtain ⟨m, a, rfl, hm, rfl⟩ := List.map_eq_cons_iff.1 hma
      obtain ⟨rfl, rfl⟩ := Prod.mk.inj hm
      have hlast : m.1 ∉ a.map Prod.fst := by
        intro hmem
        obtain ⟨m', hm', hname⟩ := List.mem_map.1 hmem
        exact hk (List.mem_map.2
          ⟨(.str (ofText m'.1), ofValue m'.2), List.mem_map.2 ⟨m', hm', rfl⟩, by rw [hname]⟩)
      have hlast' : m.1 ∉ (a.map fun m => (m.1, collapse m.2)).map Prod.fst := by
        rw [List.map_map]
        exact hlast
      have hkept : (m.1, collapse m.2) ∈ ((b.map fun m => (m.1, collapse m.2)) ++
          (m.1, collapse m.2) :: a.map fun m => (m.1, collapse m.2)).foldl put [] :=
        JsonRead.mem_foldl_put hlast'
      simp only [collapse, ofValue, ofMembers_eq_map, JsonRead.collapseMembers_eq_map,
        List.map_append, List.map_cons] at h
      exact .inr ⟨m.2, rfl, h.value (List.mem_map.2 ⟨_, hkept, rfl⟩)⟩
    | null => cases heq
    | bool b => cases heq
    | int n => cases heq
    | float y => cases heq
    | str s => cases heq
    | arr ws => cases heq

omit [FloatText ν] in
theorem Looked.str {p : Payload ν} {s : String} (h : Looked p (.str s)) : Seen p (.str s) := by
  rcases h with h | ⟨w, heq, h⟩
  · exact h
  · cases w with
    | str t =>
      simp only [ofValue, Payload.str.injEq] at heq
      subst heq
      exact h
    | null => cases heq
    | bool b => cases heq
    | int n => cases heq
    | float y => cases heq
    | arr ws => cases heq
    | obj ms => cases heq

/-- The JSON of an object or an array starts with a brace or a bracket. -/
theorem looksEncoded_of_encoded (json : JsonModule ν) {s : String} {v : JsonRead.Value ν}
    (h : encoded s = some v) : looksEncoded ν s = true := by
  have hread : JsonRead.read (JsonRead.chars s.toList) = some v ∧ JsonRead.Nested v := by
    unfold encoded at h
    split at h
    · rename_i hr
      cases h
      exact ⟨hr, trivial⟩
    · rename_i hr
      cases h
      exact ⟨hr, trivial⟩
    · cases h
  obtain ⟨c, rest, hdrop, hc⟩ := JsonRead.dropWhile_of_read hread.1 hread.2
  have hspaces : s.toList.dropWhile (Python.isSpace ν) = c :: rest := by
    rw [← List.takeWhile_append_dropWhile (p := JsonRead.isBlank) (l := s.toList), hdrop,
      List.dropWhile_append_of_pos]
    · exact List.dropWhile_cons_of_neg (by simp [json.bracket c hc])
    · intro d hd
      exact json.space d (List.all_eq_true.1 List.all_takeWhile d hd)
  unfold looksEncoded
  rw [hspaces]
  simpa using hc

/-- Whatever occurs in an accepted payload is looked at or overlooked. -/
theorem Found.looked (json : JsonModule ν) {p v : Payload ν} {depth : Nat}
    (hcheck : check depth p = .ok ()) (h : Found p v) : Looked p v ∨ Overlooked p v := by
  induction h with
  | self => exact .inl (.inl .self)
  | item _ hmem ih =>
    rcases ih with h | h
    · exact .inl (h.item hmem)
    · exact .inr (h.item hmem)
  | @value d items k x hfound hmem ih =>
    rcases ih with h | h
    · obtain ⟨before, after, rfl⟩ := List.append_of_mem hmem
      by_cases hk : k ∈ after.map Prod.fst
      · exact .inr (.overwritten hfound hk)
      · exact .inl (h.value hk)
    · exact .inr (h.value hmem)
  | name hfound hmem => exact .inr (.name hfound hmem)
  | @text s v hfound hencoded ih =>
    rcases ih with h | h
    · have hseen := h.str
      have hlooks := looksEncoded_of_encoded json hencoded
      obtain ⟨depth, hstr⟩ := check_seen hcheck hseen
      obtain ⟨decoded, hdecoded, -⟩ := (check_str hstr).2 hlooks
      rcases json.loads s v hencoded with ⟨e, herror⟩ | hloads
      · rw [herror] at hdecoded
        cases hdecoded
      · by_cases hlong : tooLong (Python.maxStrDigits ν) v = true
        · exact .inr (.refused hfound hencoded hlong)
        · rw [if_neg hlong] at hloads
          exact .inl (.inr ⟨v, rfl, hseen.text hlooks hloads⟩)
    · exact .inr (h.text hencoded)

omit [FloatText ν] in
/-- A leaf that passes the check and has a text is one of JSON's. -/
theorem leaf_of_check {v : Payload ν} {depth limit : Nat} {encoded : List Char}
    (hcheck : check depth v = .ok ()) (hdumps : dumps limit v = .ok encoded) : Leaf v := by
  cases v with
  | float x =>
    cases limit with
    | zero => cases hdumps
    | succ limit =>
      have hsteps : (do
          ensure (Python.isFinite x) Raised.failure
          return (Python.repr x).toList) = .ok encoded := hdumps
      obtain ⟨_, hfinite, -⟩ := bind_eq_ok.1 hsteps
      have hx : Python.isFinite x = true := ensure_eq_ok.1 hfinite
      exact hx
  | path p =>
    cases depth with
    | zero => cases hcheck
    | succ depth => cases hcheck
  | object =>
    cases depth with
    | zero => cases hcheck
    | succ depth => cases hcheck
  | none => trivial
  | bool b => trivial
  | int n => trivial
  | str s => trivial
  | list t items => trivial
  | mapping d items => trivial

omit [FloatText ν] in
theorem dumps_list {t : Bool} {items : List (Payload ν)} {limit : Nat} {encoded : List Char}
    (h : dumps limit (.list t items) = .ok encoded) {x : Payload ν} (hx : x ∈ items) :
    ∃ limit encoded, dumps limit x = .ok encoded := by
  cases limit with
  | zero => cases h
  | succ limit =>
    have hsteps : (do
        let items ← items.mapM (dumps limit)
        return '[' :: (", ".toList.intercalate items ++ [']'])) = .ok encoded := h
    obtain ⟨texts, htexts, -⟩ := bind_eq_ok.1 hsteps
    obtain ⟨one, hone⟩ := mapM_mem htexts x hx
    exact ⟨limit, one, hone⟩

omit [FloatText ν] in
theorem dumps_mapping {d : Bool} {items : List (Key × Payload ν)} {limit : Nat}
    {encoded : List Char} (h : dumps limit (.mapping d items) = .ok encoded) {k : Key}
    {x : Payload ν} (hx : (k, x) ∈ items) : ∃ limit encoded, dumps limit x = .ok encoded := by
  cases limit with
  | zero => cases h
  | succ limit =>
    cases d with
    | false => cases h
    | true =>
      rw [dumps] at h
      obtain ⟨texts, htexts, -⟩ := bind_eq_ok.1 h
      obtain ⟨one, hone⟩ := mapM_mem htexts (k, x) hx
      obtain ⟨_, -, hvalue⟩ := bind_eq_ok.1 hone
      obtain ⟨one, hone, -⟩ := bind_eq_ok.1 hvalue
      exact ⟨limit, one, hone⟩

omit [FloatText ν] in
/-- Every part of a payload that is checked and encoded is checked and encoded. -/
theorem part_checked {p v : Payload ν} {depth limit : Nat} {encoded : List Char}
    (hcheck : check depth p = .ok ()) (hdumps : dumps limit p = .ok encoded) (hv : Part p v) :
    (∃ depth, check depth v = .ok ()) ∧ ∃ limit encoded, dumps limit v = .ok encoded := by
  induction hv with
  | self => exact ⟨⟨depth, hcheck⟩, limit, encoded, hdumps⟩
  | item _ hmem ih =>
    obtain ⟨⟨depth, hc⟩, limit, encoded, hd⟩ := ih
    exact ⟨check_list hc hmem, dumps_list hd hmem⟩
  | value _ hmem ih =>
    obtain ⟨⟨depth, hc⟩, limit, encoded, hd⟩ := ih
    exact ⟨(check_mapping hc hmem).2, dumps_mapping hd hmem⟩

omit [FloatText ν] in
theorem checkedPayload_eq_ok {p : Payload ν} {text : String} (h : checkedPayload p = .ok text) :
    check (Python.recursionLimit ν) p = .ok () ∧
      dumps (Python.recursionLimit ν) p = .ok text.toList ∧
      (utf8 text.toList).length ≤ maxPayloadBytes := by
  obtain ⟨_, hcheck, hrest⟩ := bind_eq_ok.1 (mapError_eq_ok.1 h)
  obtain ⟨encoded, hdumps, hrest⟩ := bind_eq_ok.1 hrest
  obtain ⟨_, hsize, htext⟩ := bind_eq_ok.1 hrest
  obtain rfl := pure_eq_ok.1 htext
  rw [String.toList_ofList]
  exact ⟨hcheck, hdumps, ensure_eq_ok.1 hsize⟩

/-- An accepted payload is as the check promises exactly when all that the check overlooks is
fine. -/
theorem checkedPayload_complete_iff (json : JsonModule ν) (p : Payload ν) (text : String)
    (h : checkedPayload p = .ok text) :
    Complete p text ↔ ∀ v, Overlooked p v → Fine v := by
  obtain ⟨hcheck, hdumps, hsize⟩ := checkedPayload_eq_ok h
  constructor
  · intro hcomplete v hv
    exact hcomplete.fine v hv.found
  · intro hoverlooked
    have hseen : ∀ v, Seen p v → Fine v := by
      intro v hv
      obtain ⟨depth, hone⟩ := check_seen hcheck hv
      exact fine_of_check hone
    refine ⟨?_, ?_, hdumps, hsize⟩
    · intro v hv
      rcases hv.looked json hcheck with (h | ⟨w, rfl, h⟩) | h
      · exact hseen v h
      · exact fine_of_collapse (hseen _ h)
      · exact hoverlooked v h
    · intro v hv
      obtain ⟨⟨depth, hone⟩, limit, encoded, htext⟩ := part_checked hcheck hdumps hv
      exact leaf_of_check hone htext

end

namespace Sample

/-- Floats of which only a few are told apart. -/
inductive Number where
  | zero | nan | infinity | negInfinity
  deriving DecidableEq

instance : FloatText Number where
  nan := .nan
  infinity := .infinity
  negInfinity := .negInfinity
  ofLiteral _ := .zero
  form
    | .zero => .literal ⟨false, ['0'], ['0'], none⟩
    | .nan => .nan
    | .infinity => .infinity
    | .negInfinity => .negInfinity
  nan_of_form {x} h := by
    cases x <;> first | rfl | cases h
  infinity_of_form {x} h := by
    cases x <;> first | rfl | cases h
  negInfinity_of_form {x} h := by
    cases x <;> first | rfl | cases h
  valid_of_form {x l} h := by
    cases x with
    | zero =>
      cases h
      exact ⟨⟨.inl rfl, List.forall_mem_cons.2 ⟨rfl, List.forall_mem_singleton.2 rfl⟩, nofun⟩,
        .inl (List.cons_ne_nil _ _)⟩
    | nan => cases h
    | infinity => cases h
    | negInfinity => cases h
  ofLiteral_of_form {x l} h := by
    cases x <;> first | rfl | cases h

instance : Python Number where
  isFinite x := x = .zero
  repr _ := "0.0"
  lower s := String.ofList (s.toList.map Char.toLower)
  isWord c := c.isAlphanum || c = '_'
  isDecimal := Char.isDigit
  isSpace := Char.isWhitespace
  loads s :=
    match encoded s with
    | some v => .ok (if tooLong 4300 v then none else some (ofValue (collapse v)))
    | none => .ok none
  urlsplit _ := none
  recursionLimit := 1000
  maxStrDigits := 4300

theorem json : JsonModule Number where
  space c hc := by
    simp only [JsonRead.isBlank, Bool.or_eq_true, decide_eq_true_eq] at hc
    obtain ((rfl | rfl) | rfl) | rfl := hc <;> rfl
  bracket c hc := by
    obtain rfl | rfl := hc <;> rfl
  loads s v h := by
    right
    show (match encoded s with
      | some v => (Except.ok (if tooLong 4300 v then none else some (ofValue (collapse v))) :
          Except Raised (Option (Payload Number)))
      | none => Except.ok none) = _
    rw [h]
    rfl

/-- A text with a member twice. -/
def nested : Payload Number :=
  .mapping true [(.str "note", .str "\x7b\"a\": 1, \"a\": \"b\"\x7d")]

/-- A secret for a name. -/
def leaking : Payload Number := .mapping true [(.str "sk-aaaaaaaaaaaaaaaaaaaa", .int 1)]

end Sample

open Sample in
theorem sample_checkedPayload_complete_iff : ∃ text, checkedPayload nested = .ok text ∧
    (Complete nested text ↔ ∀ v, Overlooked nested v → Fine v) := by
  have hok : (checkedPayload nested).isOk = true := by decide +kernel
  cases h : checkedPayload nested with
  | error e =>
    rw [h] at hok
    cases hok
  | ok text => exact ⟨text, rfl, checkedPayload_complete_iff json nested text h⟩

open Sample in
/-- A name is a text too, and it is never searched. -/
theorem leaking_accepted : ∃ text, checkedPayload leaking = .ok text ∧
    Found leaking (.str "sk-aaaaaaaaaaaaaaaaaaaa") ∧
    (secret Number).search "sk-aaaaaaaaaaaaaaaaaaaa" = true ∧ ¬ Complete leaking text := by
  have hok : (checkedPayload leaking).isOk = true := by decide +kernel
  have hfound : Found leaking (.str "sk-aaaaaaaaaaaaaaaaaaaa") := .name .self List.mem_cons_self
  have hsearch : (secret Number).search "sk-aaaaaaaaaaaaaaaaaaaa" = true := by decide +kernel
  cases h : checkedPayload leaking with
  | error e =>
    rw [h] at hok
    cases hok
  | ok text =>
    refine ⟨text, rfl, hfound, hsearch, fun hcomplete => ?_⟩
    have hfine : (secret Number).search "sk-aaaaaaaaaaaaaaaaaaaa" = false := hcomplete.fine _ hfound
    rw [hsearch] at hfine
    cases hfine

end ProjectMaya.Plugin.PayloadCheck
