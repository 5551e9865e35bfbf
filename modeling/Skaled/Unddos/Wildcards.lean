import Mathlib.Data.List.Infix
import Skaled.Unddos.Algorithm

/-! # Wildcards

`wildcmp` walks over a pattern and a string with two pointers. Where the characters
differ it goes back to the text behind the last star, which takes one character more.
Going back to the last star only loses no match: what an earlier star would have to
take more, the last one can take, too.

A pointer is given by what can be read from it on: the rest of its text and the
terminator. A `Char` stands for a byte: nothing but equality of characters is used, and
a `?` takes one byte.
-/

namespace Skaled.Unddos

variable {wild s : List Char}

/-! ## What patterns mean -/

/-- The piece of a string that a character of a pattern matches. -/
def Takes (w : Char) (piece : List Char) : Prop :=
  if w = '*' then True else if w = '?' then piece.length = 1 else piece = [w]

/-- A string is split into pieces for the characters of a pattern. -/
def Matches : List Char → List Char → Prop
  | [], s => s = []
  | w :: wild, s => ∃ piece rest, s = piece ++ rest ∧ Takes w piece ∧ Matches wild rest

variable {w c : Char}

theorem takes_iff {piece : List Char} (hstar : w ≠ '*') :
    Takes w piece ↔ ∃ c, piece = [c] ∧ (w = c ∨ w = '?') := by
  rw [Takes, if_neg hstar]
  split
  next hany => simp [List.length_eq_one_iff, hany]
  next hany => simp [hany]

theorem matches_star_iff : Matches ('*' :: wild) s ↔ ∃ rest, rest <:+ s ∧ Matches wild rest := by
  constructor
  · rintro ⟨piece, rest, rfl, -, h⟩
    exact ⟨rest, List.suffix_append _ _, h⟩
  · rintro ⟨rest, ⟨piece, rfl⟩, h⟩
    exact ⟨piece, rest, rfl, trivial, h⟩

theorem matches_star : Matches ['*'] s :=
  matches_star_iff.mpr ⟨[], List.nil_suffix, rfl⟩

theorem matches_cons_iff (hstar : w ≠ '*') :
    Matches (w :: wild) (c :: s) ↔ (w = c ∨ w = '?') ∧ Matches wild s := by
  constructor
  · rintro ⟨piece, rest, heq, htakes, h⟩
    obtain ⟨c', rfl, hc⟩ := (takes_iff hstar).mp htakes
    cases heq
    exact ⟨hc, h⟩
  · rintro ⟨hc, h⟩
    exact ⟨[c], s, rfl, (takes_iff hstar).mpr ⟨c, rfl, hc⟩, h⟩

theorem matches_nil_iff : Matches wild [] ↔ wild.all (· = '*') = true := by
  induction wild with
  | nil => exact ⟨fun _ => rfl, fun _ => rfl⟩
  | cons w wild ih =>
    rw [List.all_cons, Bool.and_eq_true, decide_eq_true_eq, ← ih]
    constructor
    · rintro ⟨piece, rest, heq, htakes, h⟩
      obtain ⟨rfl, rfl⟩ := List.append_eq_nil_iff.mp heq.symm
      refine ⟨?_, h⟩
      by_contra hstar
      obtain ⟨c, heq, -⟩ := (takes_iff hstar).mp htakes
      cases heq
    · rintro ⟨rfl, h⟩
      exact matches_star_iff.mpr ⟨[], List.suffix_refl _, h⟩

/-! ## The greedy search -/

theorem scan_nil : scan wild [] = .ended wild := by cases wild <;> rfl

theorem scan_of_eq (hstar : w ≠ '*') (heq : w = c ∨ w = '?') :
    scan (w :: wild) (c :: s) = scan wild s := by
  rw [scan, if_neg hstar, if_pos heq]

theorem scan_of_ne (hstar : w ≠ '*') (hne : ¬ (w = c ∨ w = '?')) :
    scan (w :: wild) (c :: s) = .mismatch := by
  rw [scan, if_neg hstar, if_neg hne]

/-- What is left to match where the comparison stops. -/
def Left : Scan → Prop
  | .ended rest => rest.all (· = '*') = true
  | .star wild s => Matches ('*' :: wild) s
  | .mismatch => False

theorem matches_iff_left : Matches wild s ↔ Left (scan wild s) := by
  induction s generalizing wild with
  | nil =>
    rw [scan_nil]
    exact matches_nil_iff
  | cons c s ih =>
    cases wild with
    | nil => exact ⟨nofun, False.elim⟩
    | cons w wild =>
      by_cases hstar : w = '*'
      · subst hstar
        exact Iff.rfl
      · rw [matches_cons_iff hstar]
        by_cases heq : w = c ∨ w = '?'
        · rw [scan_of_eq hstar heq, ← ih]
          exact and_iff_right heq
        · rw [scan_of_ne hstar heq]
          exact ⟨fun h => heq h.1, False.elim⟩

/-- A match of the end of a string leaves the same to the text behind the next star,
if the comparison gets there. -/
theorem left_of_suffix {t : List Char} (hsuffix : t <:+ s) (h : Matches wild t)
    (hscan : scan wild s ≠ .mismatch) : Left (scan wild s) := by
  induction s generalizing wild t with
  | nil =>
    rw [List.suffix_nil.mp hsuffix] at h
    exact matches_iff_left.mp h
  | cons c s ih =>
    cases wild with
    | nil => exact absurd rfl hscan
    | cons w wild =>
      by_cases hstar : w = '*'
      · subst hstar
        obtain ⟨rest, hrest, h⟩ := matches_star_iff.mp h
        exact matches_star_iff.mpr ⟨rest, hrest.trans hsuffix, h⟩
      · by_cases heq : w = c ∨ w = '?'
        · rw [scan_of_eq hstar heq] at hscan ⊢
          obtain ⟨piece, rest, rfl, htakes, h⟩ := h
          obtain ⟨d, rfl, -⟩ := (takes_iff hstar).mp htakes
          refine ih ?_ h hscan
          rcases List.suffix_cons_iff.mp hsuffix with heq | hlater
          · cases heq
            exact List.suffix_refl _
          · exact (List.suffix_cons d rest).trans hlater
        · exact absurd (scan_of_ne hstar heq) hscan

theorem retry_eq (wild s : List Char) : retry wild s =
    match scan wild s with
    | .ended rest => rest.all (· = '*')
    | .star wild' s' => if wild' = [] then true else retry wild' s'
    | .mismatch => match s with
      | [] => false
      | _ :: cp => retry wild cp := by
  rw [retry]
  split
  next hscan => simp [hscan]
  next hscan => simp [hscan]
  next hscan =>
    simp only [hscan]
    cases s <;> rfl

/-- Behind a star. -/
theorem matches_star_iff_left (hscan : scan wild s ≠ .mismatch) :
    Matches ('*' :: wild) s ↔ Left (scan wild s) := by
  rw [matches_star_iff]
  constructor
  · rintro ⟨rest, hsuffix, h⟩
    exact left_of_suffix hsuffix h hscan
  · intro h
    exact ⟨s, List.suffix_refl _, matches_iff_left.mpr h⟩

theorem retry_iff : retry wild s = true ↔ Matches ('*' :: wild) s := by
  induction wild, s using retry.induct with
  | case1 wild s rest hscan =>
    rw [matches_star_iff_left (by rw [hscan]; nofun), retry_eq, hscan]
    exact Iff.rfl
  | case2 wild s s' hscan =>
    rw [matches_star_iff_left (by rw [hscan]; nofun), retry_eq, hscan]
    exact ⟨fun _ => matches_star, fun _ => rfl⟩
  | case3 wild s wild' s' hscan _ hne ih =>
    rw [matches_star_iff_left (by rw [hscan]; nofun), retry_eq, hscan]
    dsimp only
    rw [if_neg hne]
    exact ih
  | case4 wild hscan => cases wild <;> cases hscan
  | case5 wild c s hscan ih =>
    have hnot : ¬ Matches wild (c :: s) := by
      rw [matches_iff_left, hscan]
      exact id
    rw [retry_eq, hscan]
    refine ih.trans ?_
    rw [matches_star_iff, matches_star_iff]
    constructor
    · rintro ⟨rest, hsuffix, h⟩
      exact ⟨rest, hsuffix.trans (List.suffix_cons c s), h⟩
    · rintro ⟨rest, hsuffix, h⟩
      rcases List.suffix_cons_iff.mp hsuffix with rfl | hlater
      · exact absurd h hnot
      · exact ⟨rest, hlater, h⟩

theorem wildcmp_iff {wild s : String} : wildcmp wild s = true ↔ Matches wild.toList s.toList := by
  rw [matches_iff_left]
  unfold wildcmp
  split
  next hscan =>
    rw [hscan]
    exact Iff.rfl
  next hscan =>
    rw [hscan]
    split
    next hnil =>
      rw [hnil]
      exact ⟨fun _ => matches_star, fun _ => rfl⟩
    next => exact retry_iff
  next hscan =>
    rw [hscan]
    exact iff_of_false Bool.false_ne_true id

/-! ## The loops -/

def nul : Char := Char.ofNat 0

/-- The memory of a string, up to its terminator. -/
def cStr (text : List Char) : List Char := text ++ [nul]

/-- Where the function is: in its first loop, in the second one, which knows where to go
back to if there was a star, or in the last one. -/
inductive Place where
  | lead (wild s : List Char)
  | back (wild s : List Char) (mp cp : Option (List Char))
  | trail (wild : List Char)
  deriving DecidableEq, Repr

inductive Outcome where
  | go (place : Place)
  | returned (result : Bool)
  deriving DecidableEq, Repr

/-- The condition of a loop, and its body or what comes after it. To read behind a
terminator has no outcome. -/
def wildcmpStep : Place → Option Outcome
  | .lead wild s => do
    let c ← s.head?
    if c = nul then pure (.go (.back wild s none none))
    else
      let w ← wild.head?
      if w = '*' then pure (.go (.back wild s none none))
      else if w ≠ c ∧ w ≠ '?' then pure (.returned false)
      else pure (.go (.lead wild.tail s.tail))
  | .back wild s mp cp => do
    let c ← s.head?
    if c = nul then pure (.go (.trail wild))
    else
      let w ← wild.head?
      if w = '*' then
        let next ← wild.tail.head?
        if next = nul then pure (.returned true)
        else pure (.go (.back wild.tail s (some wild.tail) (some s.tail)))
      else if w = c ∨ w = '?' then pure (.go (.back wild.tail s.tail mp cp))
      else
        -- without a star both pointers are null, and the condition of the loop reads one
        let wild ← mp
        let s ← cp
        pure (.go (.back wild s mp (some s.tail)))
  | .trail wild => do
    let w ← wild.head?
    if w = '*' then pure (.go (.trail wild.tail)) else pure (.returned (w = nul))

/-- The function returns from a place, and reads nothing behind a terminator on the way. -/
inductive Returns : Place → Bool → Prop
  | done {place : Place} {result : Bool} (h : wildcmpStep place = some (.returned result)) :
      Returns place result
  | step {place next : Place} {result : Bool} (h : wildcmpStep place = some (.go next))
      (hnext : Returns next result) : Returns place result

variable {place : Place}

theorem Returns.unique {result result' : Bool} (h : Returns place result)
    (h' : Returns place result') : result = result' := by
  induction h with
  | done h =>
    cases h' with
    | done h' =>
      cases h.symm.trans h'
      rfl
    | step h' => cases h.symm.trans h'
  | step h _ ih =>
    cases h' with
    | done h' => cases h.symm.trans h'
    | step h' hnext =>
      cases h.symm.trans h'
      exact ih hnext

/-- The second loop behind a star. -/
def behind (wild s : List Char) : Place :=
  .back (cStr wild) (cStr s) (some (cStr wild)) (some (cStr s).tail)

/-- What a loop does up to the next star, in terms of `scan`. `fallback` says what is
returned after a mismatch. -/
def Goes (scanned : Scan) (place : Place) (fallback : Bool → Prop) : Prop :=
  match scanned with
  | .ended rest => Returns place (rest.all (· = '*'))
  | .star [] _ => Returns place true
  | .star wild s => nul ∉ wild ∧ nul ∉ s ∧ ∀ result, Returns (behind wild s) result →
      Returns place result
  | .mismatch => ∀ result, fallback result → Returns place result

theorem Goes.step {scanned : Scan} {next : Place} {fallback : Bool → Prop}
    (hstep : wildcmpStep place = some (.go next)) (h : Goes scanned next fallback) :
    Goes scanned place fallback := by
  unfold Goes at h ⊢
  split at h
  · exact .step hstep h
  · exact .step hstep h
  · exact ⟨h.1, h.2.1, fun result hresult => .step hstep (h.2.2 result hresult)⟩
  · exact fun result hresult => .step hstep (h result hresult)

theorem nul_ne : nul ≠ '*' ∧ nul ≠ '?' := by decide

theorem trail_returns (hwild : nul ∉ wild) : Returns (.trail (cStr wild)) (wild.all (· = '*')) := by
  induction wild with
  | nil => exact .done rfl
  | cons w wild ih =>
    obtain ⟨hw, hwild⟩ := not_or.mp (mt List.mem_cons.mpr hwild)
    by_cases hstar : w = '*'
    · rw [List.all_cons, decide_eq_true hstar, Bool.true_and]
      refine .step ?_ (ih hwild)
      exact if_pos hstar
    · rw [List.all_cons, decide_eq_false hstar, Bool.false_and]
      apply Returns.done
      rw [← decide_eq_false (Ne.symm hw)]
      exact if_neg hstar

theorem back_goes (mp cp : Option (List Char)) (hwild : nul ∉ wild) (hs : nul ∉ s) :
    Goes (scan wild s) (.back (cStr wild) (cStr s) mp cp) fun result =>
      ∃ wild s, mp = some wild ∧ cp = some s ∧
        Returns (.back wild s mp (some s.tail)) result := by
  induction s generalizing wild with
  | nil =>
    rw [scan_nil]
    exact .step rfl (trail_returns hwild)
  | cons c s ih =>
    obtain ⟨hc, hrest⟩ := not_or.mp (mt List.mem_cons.mpr hs)
    cases wild with
    | nil =>
      rintro result ⟨wild', s', rfl, rfl, hback⟩
      refine .step ?_ hback
      simp [wildcmpStep, cStr, hc, Ne.symm hc, nul_ne]
    | cons w wild =>
      obtain ⟨-, hlater⟩ := not_or.mp (mt List.mem_cons.mpr hwild)
      by_cases hstar : w = '*'
      · subst hstar
        cases wild with
        | nil =>
          apply Returns.done
          simp [wildcmpStep, cStr, Ne.symm hc]
        | cons w wild =>
          refine ⟨hlater, hs, fun result hresult => .step ?_ hresult⟩
          obtain ⟨hw, -⟩ := not_or.mp (mt List.mem_cons.mpr hlater)
          simp [wildcmpStep, behind, cStr, Ne.symm hc, Ne.symm hw]
      · by_cases heq : w = c ∨ w = '?'
        · rw [scan_of_eq hstar heq]
          refine (ih hlater hrest).step ?_
          simp [wildcmpStep, cStr, Ne.symm hc, hstar, heq]
        · rw [scan_of_ne hstar heq]
          rintro result ⟨wild', s', rfl, rfl, hback⟩
          refine .step ?_ hback
          simp [wildcmpStep, cStr, Ne.symm hc, hstar, heq]

theorem lead_goes (hwild : nul ∉ wild) (hs : nul ∉ s) :
    Goes (scan wild s) (.lead (cStr wild) (cStr s)) (· = false) := by
  induction s generalizing wild with
  | nil =>
    have hback := back_goes none none hwild hs
    rw [scan_nil] at hback ⊢
    exact .step rfl hback
  | cons c s ih =>
    obtain ⟨hc, hrest⟩ := not_or.mp (mt List.mem_cons.mpr hs)
    cases wild with
    | nil =>
      rintro result rfl
      apply Returns.done
      simp [wildcmpStep, cStr, hc, Ne.symm hc, nul_ne]
    | cons w wild =>
      obtain ⟨-, hlater⟩ := not_or.mp (mt List.mem_cons.mpr hwild)
      by_cases hstar : w = '*'
      · subst hstar
        have hstep : wildcmpStep (.lead (cStr ('*' :: wild)) (cStr (c :: s))) =
            some (.go (.back (cStr ('*' :: wild)) (cStr (c :: s)) none none)) := by
          simp [wildcmpStep, cStr]
        cases wild with
        | nil | cons => exact (back_goes none none hwild hs :).step hstep
      · by_cases heq : w = c ∨ w = '?'
        · rw [scan_of_eq hstar heq]
          refine (ih hlater hrest).step ?_
          rcases heq with rfl | rfl
          · simp [wildcmpStep, cStr, Ne.symm hc, hstar]
          · simp [wildcmpStep, cStr, Ne.symm hc]
        · rw [scan_of_ne hstar heq]
          rintro result rfl
          apply Returns.done
          simp [wildcmpStep, cStr, Ne.symm hc, hstar, not_or.mp heq]

theorem behind_returns (hwild : nul ∉ wild) (hs : nul ∉ s) :
    Returns (behind wild s) (retry wild s) := by
  induction wild, s using retry.induct with
  | case1 wild s _ hscan | case2 wild s _ hscan =>
    have hgoes := back_goes (some (cStr wild)) (some (cStr s).tail) hwild hs
    rw [hscan] at hgoes
    rw [retry_eq, hscan]
    exact hgoes
  | case3 wild s wild' s' hscan _ hne ih =>
    obtain ⟨w, rest, rfl⟩ := List.exists_cons_of_ne_nil hne
    have hgoes := back_goes (some (cStr wild)) (some (cStr s).tail) hwild hs
    rw [hscan] at hgoes
    rw [retry_eq, hscan]
    exact hgoes.2.2 _ (ih hgoes.1 hgoes.2.1)
  | case4 wild hscan => cases wild <;> cases hscan
  | case5 wild c s hscan ih =>
    have hgoes := back_goes (some (cStr wild)) (some (cStr (c :: s)).tail) hwild hs
    rw [hscan] at hgoes
    rw [retry_eq, hscan]
    exact hgoes _ ⟨_, _, rfl, rfl, ih hwild (mt (List.mem_cons_of_mem _) hs)⟩

/-- The loops return what `wildcmp` says. -/
theorem wildcmp_returns {wild s : String} (hwild : nul ∉ wild.toList) (hs : nul ∉ s.toList) :
    Returns (.lead (cStr wild.toList) (cStr s.toList)) (wildcmp wild s) := by
  have hgoes := lead_goes hwild hs
  unfold wildcmp
  split
  next hscan =>
    rw [hscan] at hgoes
    exact hgoes
  next wild' s' hscan =>
    rw [hscan] at hgoes
    cases wild' with
    | nil => exact hgoes
    | cons w wild' => exact hgoes.2.2 _ (behind_returns hgoes.1 hgoes.2.1)
  next hscan =>
    rw [hscan] at hgoes
    exact hgoes false rfl

/-! ## Rules -/

/-- A pattern of the rule matches the origin. -/
def OriginEntrySetting.Covers (oe : OriginEntrySetting) (origin : String) : Prop :=
  ∃ wild ∈ oe.originWildcards, Matches wild.toList origin.toList

theorem matchOrigin_iff {oe : OriginEntrySetting} {origin : String} (hnamed : origin ≠ "") :
    oe.matchOrigin origin = true ↔ oe.Covers origin := by
  simp only [OriginEntrySetting.matchOrigin, decide_eq_true_eq, List.any_eq_true, wildcmp_iff]
  exact and_iff_right hnamed

theorem findOriginEntrySetting_of_first {st : Settings} {origin : String}
    {before later : List OriginEntrySetting} {oe : OriginEntrySetting} (hnamed : origin ≠ "")
    (horigins : st.origins = before ++ oe :: later)
    (hbefore : ∀ other ∈ before, ¬ other.Covers origin) (hcovers : oe.Covers origin) :
    st.findOriginEntrySetting origin = (oe, st) := by
  have hfind : st.findOriginEntrySettingMatch origin = some oe := by
    have hnone : before.find? (·.matchOrigin origin) = none := by
      refine List.find?_eq_none.mpr fun other hother hmatch => ?_
      exact hbefore other hother ((matchOrigin_iff hnamed).mp hmatch)
    rw [Settings.findOriginEntrySettingMatch, horigins, List.find?_append, hnone, Option.none_or,
      List.find?_cons, (matchOrigin_iff hnamed).mpr hcovers]
  rw [Settings.findOriginEntrySetting, hfind]

/-- `wildcmp` returns whether the string matches the pattern. An origin gets the first rule
with a pattern that matches it; one without a name is refused before a rule is looked for. -/
theorem wildcards_mean :
    (∀ wild s : String, nul ∉ wild.toList → nul ∉ s.toList →
      (Returns (.lead (cStr wild.toList) (cStr s.toList)) true ↔
        Matches wild.toList s.toList) ∧
      (Returns (.lead (cStr wild.toList) (cStr s.toList)) false ↔
        ¬ Matches wild.toList s.toList)) ∧
    (∀ (st : Settings) (origin : String) (before later : List OriginEntrySetting)
      (oe : OriginEntrySetting), origin ≠ "" → st.origins = before ++ oe :: later →
      (∀ other ∈ before, ¬ other.Covers origin) → oe.Covers origin →
      st.findOriginEntrySetting origin = (oe, st)) ∧
    ∀ a : Algorithm, a.settings.enabled = true →
      (∀ strMethod ttmNow durationToPast,
        a.registerCallFromOrigin "" strMethod ttmNow durationToPast = (.badOrigin, a)) ∧
      a.registerWsConnForOrigin "" = (.badOrigin, a) := by
  refine ⟨fun wild s hwild hs => ?_, ?_, fun a henabled => ?_⟩
  · have hreturns := wildcmp_returns hwild hs
    rw [← wildcmp_iff]
    constructor
    · exact ⟨fun htrue => hreturns.unique htrue, fun htrue => htrue ▸ hreturns⟩
    · rw [Bool.not_eq_true]
      exact ⟨fun hfalse => hreturns.unique hfalse, fun hfalse => hfalse ▸ hreturns⟩
  · intro st origin before later oe hnamed horigins hbefore hcovers
    exact findOriginEntrySetting_of_first hnamed horigins hbefore hcovers
  · simp [Algorithm.registerCallFromOrigin, Algorithm.registerWsConnForOrigin, henabled]

/-- The star first takes one character; what follows then differs, and it takes more. -/
theorem wildcards_mean_sample :
    Returns (.lead (cStr "1*.1".toList) (cStr "10.1.0.1".toList)) true := by
  refine (wildcards_mean.1 "1*.1" "10.1.0.1" (by decide) (by decide)).1.mpr ?_
  rw [show "1*.1".toList = ['1', '*', '.', '1'] by decide]
  refine ⟨['1'], "0.1.0.1".toList, by decide, rfl, matches_star_iff.mpr ⟨['.', '1'], ?_, ?_⟩⟩
  · exact ⟨"0.1.0".toList, by decide⟩
  · exact ⟨['.'], ['1'], rfl, rfl, ['1'], [], rfl, rfl, rfl⟩

end Skaled.Unddos
