import Steel.Spec.PermissionRules

/-!
# Resolving a permission follows the declarative rule

Appending the groups visits every group that the subject belongs to once, so that the collected
rules are the subject's rules as a set. The pass over them finds one that decides.
-/

namespace Steel

open List Option

/-! ### Keys -/

namespace PermissionKey

theorem length_splitDots (text : List Char) : (splitDots text).length = text.count '.' + 1 := by
  rw [splitDots, List.splitOn]
  induction text with
  | nil => rfl
  | cons character text ih =>
    rw [splitOnP_cons_eq_if_modifyHead]
    split
    case isTrue hdot =>
      rw [beq_iff_eq] at hdot
      rw [hdot, length_cons, ih, count_cons_self]
    case isFalse hdot =>
      rw [beq_iff_eq] at hdot
      rw [length_modifyHead, ih, count_cons_of_ne hdot]

variable {start text : List Char} {key pattern : PermissionKey}

theorem stripSuffix_eq_some {suffix : List Char} :
    stripSuffix suffix text = some start ↔ text = start ++ suffix := by
  rw [stripSuffix]
  constructor
  · intro h
    split at h
    case isTrue hsuffix =>
      obtain ⟨front, rfl⟩ := hsuffix
      rw [length_append, Nat.add_sub_cancel, take_left, Option.some.injEq] at h
      rw [h]
    case isFalse => cases h
  · rintro rfl
    rw [if_pos (suffix_append start suffix), length_append, Nat.add_sub_cancel,
      take_left]

/-- A key matches everything, everything below its start, or itself. -/
theorem matchesKey_cases (h : pattern.matchesKey key = true) : pattern.value = ['*'] ∨
      (∃ start, pattern.value = start ++ ['.', '*'] ∧ start ++ ['.'] <+: key.value) ∨
      (pattern = key ∧ pattern.value ≠ ['*'] ∧ stripSuffix ['.', '*'] pattern.value = none) := by
  rw [matchesKey] at h
  split at h
  case isTrue hall => exact .inl hall
  case isFalse hall =>
    cases hstrip : stripSuffix ['.', '*'] pattern.value with
    | none =>
      rw [hstrip] at h
      exact .inr (.inr ⟨of_decide_eq_true h, hall, rfl⟩)
    | some start =>
      rw [hstrip] at h
      exact .inr (.inl ⟨start, stripSuffix_eq_some.mp hstrip, of_decide_eq_true h⟩)

theorem specificity_all (h : key.value = ['*']) : key.specificity = 0 := by
  rw [specificity, if_pos h]

theorem ne_all_of_wildcard (h : key.value = start ++ ['.', '*']) : key.value ≠ ['*'] := by
  intro hall
  have hlength := congrArg List.length (h.symm.trans hall)
  rw [length_append] at hlength
  simp at hlength

theorem specificity_wildcard (h : key.value = start ++ ['.', '*']) :
    key.specificity = start.count '.' + 1 := by
  rw [specificity, if_neg (ne_all_of_wildcard h), stripSuffix_eq_some.mpr h, getD_some,
    length_splitDots]

theorem specificity_exact (hall : key.value ≠ ['*']) (h : stripSuffix ['.', '*'] key.value = none) :
    key.specificity = key.value.count '.' + 1 := by
  rw [specificity, if_neg hall, h, getD_none, length_splitDots]

/-- What is followed by a dot has fewer dots. -/
theorem count_lt_of_below (h : start ++ ['.'] <+: text) : start.count '.' < text.count '.' := by
  have hcount := h.sublist.count_le '.'
  rw [count_append, count_singleton_self] at hcount
  omega

/-- Of two starts of one text that are followed by a dot, the shorter one is followed by a dot in
the longer one. -/
theorem below_of_length_lt {shorter longer : List Char} (hshorter : shorter ++ ['.'] <+: text)
    (hlonger : longer <+: text) (hlength : shorter.length < longer.length) :
    shorter ++ ['.'] <+: longer := by
  apply prefix_of_prefix_length_le hshorter hlonger
  rw [length_append, length_singleton]
  omega

theorem below_wildcard {other : List Char} (h : start ++ ['.'] <+: other ++ ['.', '*']) :
    start = other ∨ start ++ ['.'] <+: other := by
  obtain ⟨rest, hrest⟩ := h
  have hsplit : other ++ ['.', '*'] = (other ++ ['.']) ++ ['*'] := by simp
  rcases eq_nil_or_concat rest with rfl | ⟨front, last, rfl⟩
  · rw [append_nil, hsplit] at hrest
    have hlast := (append_inj' hrest rfl).2
    exact absurd hlast (by decide)
  · rw [concat_eq_append, ← append_assoc, hsplit] at hrest
    have hfront := (append_inj' hrest rfl).1
    rcases eq_nil_or_concat front with rfl | ⟨middle, dot, rfl⟩
    · rw [append_nil] at hfront
      exact .inl (append_inj' hfront rfl).1
    · rw [concat_eq_append, ← append_assoc] at hfront
      exact .inr ⟨middle, (append_inj' hfront rfl).1⟩

theorem eq_of_value_eq {left right : PermissionKey} (h : left.value = right.value) :
    left = right := by
  cases left
  cases right
  cases h
  rfl

/-- The key itself is more specific than everything else that matches it. -/
theorem specificity_lt_of_ne (h : pattern.matchesKey key = true) (hne : pattern ≠ key) :
    pattern.specificity < key.specificity := by
  have hvalue : pattern.value ≠ key.value := fun heq => hne (eq_of_value_eq heq)
  rcases matchesKey_cases h with hall | ⟨start, hpattern, hbelow⟩ | ⟨heq, _⟩
  · rw [specificity_all hall]
    have hkey : key.value ≠ ['*'] := fun hkey => hvalue (hall.trans hkey.symm)
    rw [specificity, if_neg hkey, length_splitDots]
    omega
  · rw [specificity_wildcard hpattern]
    by_cases hkey : key.value = ['*']
    · rw [hkey] at hbelow
      have hlength := hbelow.length_le
      rw [length_append] at hlength
      have hstart : start = [] := length_eq_zero_iff.mp (by simpa using hlength)
      rw [hstart] at hbelow
      exact absurd hbelow (by decide)
    · cases hstrip : stripSuffix ['.', '*'] key.value with
      | none =>
        rw [specificity_exact hkey hstrip]
        exact Nat.succ_lt_succ (count_lt_of_below hbelow)
      | some other =>
        have hother := stripSuffix_eq_some.mp hstrip
        rw [hother] at hbelow
        rw [specificity_wildcard hother]
        rcases below_wildcard hbelow with rfl | hless
        · exact absurd (hpattern.trans hother.symm) hvalue
        · exact Nat.succ_lt_succ (count_lt_of_below hless)
  · exact absurd heq hne

/-- A longer wildcard is more specific. -/
theorem specificity_lt_of_length_lt {shorter longer : PermissionKey}
    (hshorter : shorter.matchesKey key = true) (hlonger : longer.matchesKey key = true)
    (hne : shorter ≠ key) (hlength : shorter.value.length < longer.value.length) :
    shorter.specificity < longer.specificity := by
  rcases matchesKey_cases hlonger with hall | ⟨long, hlong, hbelow⟩ | ⟨rfl, _⟩
  · rw [hall, length_singleton, Nat.lt_one_iff, length_eq_zero_iff] at hlength
    rcases matchesKey_cases hshorter with hall' | ⟨short, hshort, _⟩ | ⟨heq, _⟩
    · exact absurd (hlength.symm.trans hall') (by decide)
    · rw [hlength] at hshort
      simp at hshort
    · exact absurd heq hne
  · rw [specificity_wildcard hlong]
    rcases matchesKey_cases hshorter with hall | ⟨short, hshort, hbelow'⟩ | ⟨heq, _⟩
    · rw [specificity_all hall]
      omega
    · rw [specificity_wildcard hshort]
      rw [hshort, hlong, length_append, length_append] at hlength
      have hprefix : long <+: key.value := (prefix_append long ['.']).trans hbelow
      have hless := below_of_length_lt hbelow' hprefix (by omega)
      exact Nat.succ_lt_succ (count_lt_of_below hless)
    · exact absurd heq hne
  · exact specificity_lt_of_ne hshorter hne

theorem specificity_le_count (key : PermissionKey) : key.specificity ≤ key.value.count '.' + 1 := by
  by_cases hall : key.value = ['*']
  · rw [specificity_all hall]
    omega
  · cases hstrip : stripSuffix ['.', '*'] key.value with
    | none => rw [specificity_exact hall hstrip]
    | some start =>
      have hkey := stripSuffix_eq_some.mp hstrip
      rw [specificity_wildcard hkey, hkey, count_append]
      omega

/-- What matches a key but not the key that scopes it is no less specific than what matches both. -/
theorem specificity_le_of_scopes {parent own other : PermissionKey}
    (hscopes : parent.scopes key = true) (hkey : own.matchesKey key = true)
    (hparent : own.matchesKey parent = false) (hother : other.matchesKey parent = true) :
    other.specificity ≤ own.specificity := by
  have hne : parent ≠ key := by
    rintro rfl
    rw [hkey] at hparent
    cases hparent
  rw [scopes, if_neg hne] at hscopes
  have hbelow : parent.value ++ ['.'] <+: key.value := of_decide_eq_true hscopes
  have hle : other.specificity ≤ parent.specificity := by
    by_cases heq : other = parent
    · rw [heq]
    · exact (specificity_lt_of_ne hother heq).le
  refine (hle.trans (specificity_le_count parent)).trans ?_
  rcases matchesKey_cases hkey with hall | ⟨start, hown, hstart⟩ | ⟨rfl, hall, hstrip⟩
  · rw [matchesKey, if_pos hall] at hparent
    cases hparent
  · have hnot : ¬ start ++ ['.'] <+: parent.value := by
      rw [matchesKey, if_neg (ne_all_of_wildcard hown), stripSuffix_eq_some.mpr hown] at hparent
      exact of_decide_eq_false hparent
    have hprefix : parent.value <+: key.value := (prefix_append _ _).trans hbelow
    have hlength : parent.value.length ≤ start.length := by
      by_contra hlt
      exact hnot (below_of_length_lt hstart hprefix (not_le.mp hlt))
    have hparentStart : parent.value <+: start :=
      prefix_of_prefix_length_le hprefix ((prefix_append _ _).trans hstart) hlength
    rw [specificity_wildcard hown]
    exact Nat.succ_le_succ (hparentStart.sublist.count_le '.')
  · rw [specificity_exact hall hstrip]
    exact (Nat.succ_lt_succ (count_lt_of_below hbelow)).le

end PermissionKey

/-! ### The pass over the rules -/

namespace PermissionSet

variable {specificityOf : PermissionKey → Option ℕ} {context : PermissionContext}

def candidateOf (specificityOf : PermissionKey → Option ℕ) (context : PermissionContext)
    (rule : (PermissionEntry × PermissionResolutionSource) × ℕ) : Option PermissionCandidate :=
  if !rule.1.1.context.matchesContext context then none
  else (specificityOf rule.1.1.key).map fun specificity =>
    ⟨rule.2, specificity, rule.1.1.context.specificity, rule.1.2, rule.1.1.state⟩

theorem bestCandidate_eq_foldl (set : PermissionSet) :
    set.bestCandidate specificityOf context =
      (set.rules.zipIdx.filterMap (candidateOf specificityOf context)).foldl
        (keepBest PermissionCandidate.order fun candidate => decide (candidate.state = .deny))
        none := by
  rw [bestCandidate]
  generalize (none : Option PermissionCandidate) = best
  induction set.rules.zipIdx generalizing best with
  | nil => rfl
  | cons rule rest ih =>
    obtain ⟨⟨entry, source⟩, index⟩ := rule
    rw [foldl_cons, ih, filterMap_cons, candidateOf]
    dsimp only
    split_ifs
    · rfl
    · cases specificityOf entry.key with
      | none | some specificity => rfl

/-- A rule applies with a specificity. -/
structure AppliesWith (specificityOf : PermissionKey → Option ℕ) (context : PermissionContext)
    (rule : PermissionEntry × PermissionResolutionSource) (specificity : ℕ) : Prop where
  context : rule.1.context.matchesContext context = true
  key : specificityOf rule.1.key = some specificity

def orderWith (rule : PermissionEntry × PermissionResolutionSource) (specificity : ℕ) :
    PermissionOrder :=
  toLex (specificity, toLex (rule.1.context.specificity, toLex (rule.2.rank, rule.2.tiePriority)))

variable {set : PermissionSet} {specificity : ℕ} {best : PermissionCandidate} {key : PermissionKey}

theorem mem_candidates {candidate : PermissionCandidate} :
    candidate ∈ set.rules.zipIdx.filterMap (candidateOf specificityOf context) →
      ∃ rule ∈ set.rules, ∃ specificity, AppliesWith specificityOf context rule specificity ∧
        candidate.order = orderWith rule specificity ∧ candidate.state = rule.1.state := by
  intro hmem
  obtain ⟨⟨rule, index⟩, hrule, hcandidate⟩ := mem_filterMap.mp hmem
  rw [candidateOf] at hcandidate
  split_ifs at hcandidate with hcontext
  obtain ⟨specificity, hspecificity, rfl⟩ := map_eq_some_iff.mp hcandidate
  exact ⟨rule, fst_mem_of_mem_zipIdx hrule, specificity, ⟨by simpa using hcontext, hspecificity⟩,
    rfl, rfl⟩

theorem exists_candidate {rule : PermissionEntry × PermissionResolutionSource}
    (hrule : rule ∈ set.rules) (happlies : AppliesWith specificityOf context rule specificity) :
    ∃ candidate ∈ set.rules.zipIdx.filterMap (candidateOf specificityOf context),
      candidate.order = orderWith rule specificity ∧ candidate.state = rule.1.state := by
  obtain ⟨index, hindex, hget⟩ := mem_iff_getElem.mp hrule
  refine ⟨⟨index, specificity, rule.1.context.specificity, rule.2, rule.1.state⟩, ?_, rfl, rfl⟩
  refine mem_filterMap.mpr ⟨(rule, index), ?_, ?_⟩
  · rw [mem_zipIdx_iff_getElem?, List.getElem?_eq_getElem hindex, hget]
  · rw [candidateOf, happlies.context, happlies.key]
    rfl

/-- The rule that decides has the highest order, and denies if one of that order does. -/
theorem bestCandidate_eq_some (h : set.bestCandidate specificityOf context = some best) :
    (∃ rule ∈ set.rules, ∃ specificity, AppliesWith specificityOf context rule specificity ∧
      best.order = orderWith rule specificity ∧ best.state = rule.1.state) ∧
    ∀ rule ∈ set.rules, ∀ specificity, AppliesWith specificityOf context rule specificity →
      orderWith rule specificity ≤ best.order ∧
      (orderWith rule specificity = best.order → rule.1.state = .deny → best.state = .deny) := by
  rw [bestCandidate_eq_foldl] at h
  have hbest := isBest_of_foldl_keepBest h
  refine ⟨mem_candidates hbest.mem, ?_⟩
  intro rule hrule specificity happlies
  obtain ⟨candidate, hmem, horder, hstate⟩ := exists_candidate hrule happlies
  rw [← horder, ← hstate]
  refine ⟨hbest.order_le candidate hmem, fun heq hdeny => ?_⟩
  exact of_decide_eq_true (hbest.preferred candidate hmem heq (decide_eq_true hdeny))

theorem bestCandidate_eq_none (h : set.bestCandidate specificityOf context = none) :
    ∀ rule ∈ set.rules, ∀ specificity, ¬ AppliesWith specificityOf context rule specificity := by
  rw [bestCandidate_eq_foldl, foldl_keepBest_eq_none] at h
  intro rule hrule specificity happlies
  obtain ⟨candidate, hmem, _⟩ := exists_candidate hrule happlies
  rw [h] at hmem
  cases hmem

theorem appliesWith_keySpecificity {rule : PermissionRule} :
    AppliesWith (keySpecificity key) context rule specificity ↔
      rule.Applies key context ∧ specificity = rule.1.key.specificity := by
  constructor
  · rintro ⟨hcontext, hkey⟩
    rw [keySpecificity] at hkey
    split_ifs at hkey with hmatches
    exact ⟨⟨hcontext, hmatches⟩, (Option.some.inj hkey).symm⟩
  · rintro ⟨⟨hcontext, hkey⟩, rfl⟩
    exact ⟨hcontext, by rw [keySpecificity, if_pos hkey]⟩

theorem orderWith_specificity (rule : PermissionRule) :
    orderWith rule rule.1.key.specificity = rule.precedence := by
  obtain ⟨entry, source⟩ := rule
  cases source with
  | group name priority | subject => rfl

theorem orderWith_add_le {left right : PermissionRule} {shift : ℕ} :
    orderWith left (left.1.key.specificity + shift) ≤
        orderWith right (right.1.key.specificity + shift) ↔
      left.precedence ≤ right.precedence := by
  rw [← orderWith_specificity, ← orderWith_specificity]
  simp only [orderWith, Prod.Lex.toLex_le_toLex, Nat.add_lt_add_iff_right, Nat.add_right_cancel_iff]

/-- The best candidate decides as the rules do that it may come from, if these are compared as they
would be by themselves. -/
theorem state_eq_ruleDecision
    {rules : Set PermissionRule} (shift : ℕ)
    (hbest : set.bestCandidate specificityOf context = some best)
    (hrules : ∀ rule ∈ rules, rule.Applies key context → rule ∈ set.rules ∧
      AppliesWith specificityOf context rule (rule.1.key.specificity + shift))
    (hfirst : ∀ rule ∈ set.rules, ∀ specificity,
      AppliesWith specificityOf context rule specificity →
      best.order = orderWith rule specificity →
      rule ∈ rules ∧ PermissionRule.Applies rule key context ∧
        specificity = rule.1.key.specificity + shift) :
    some best.state = ruleDecision rules key context := by
  obtain ⟨⟨rule, hrule, specificity, hwith, horder, hstate⟩, hall⟩ := bestCandidate_eq_some hbest
  obtain ⟨hmem, happlies, rfl⟩ := hfirst rule hrule specificity hwith horder
  have hle : ∀ other ∈ rules, other.Applies key context →
      other.precedence ≤ PermissionRule.precedence rule := by
    intro other hother hother'
    obtain ⟨hotherRule, hotherWith⟩ := hrules other hother hother'
    have h := (hall other hotherRule _ hotherWith).1
    rwa [horder, orderWith_add_le] at h
  have hdeny : (∃ other ∈ decidingRules rules key context, other.1.state = .deny) ↔
      best.state = .deny := by
    constructor
    · rintro ⟨other, ⟨hother, hother', hothers⟩, hdenies⟩
      obtain ⟨hotherRule, hotherWith⟩ := hrules other hother hother'
      refine (hall other hotherRule _ hotherWith).2 ?_ hdenies
      rw [horder]
      exact le_antisymm (orderWith_add_le.mpr (hle other hother hother'))
        (orderWith_add_le.mpr (hothers rule hmem happlies))
    · intro hdenies
      exact ⟨rule, ⟨hmem, happlies, hle⟩, hstate.symm.trans hdenies⟩
  rw [ruleDecision, if_pos ⟨rule, hmem, happlies⟩]
  cases hbestState : best.state with
  | deny => rw [if_pos (hdeny.mpr hbestState)]
  | allow =>
    rw [if_neg]
    rw [hdeny, hbestState]
    decide

theorem map_state_eq_ruleDecision (shift : ℕ)
    (h : ∀ (rule : PermissionRule) (specificity : ℕ),
      AppliesWith specificityOf context rule specificity ↔
        rule.Applies key context ∧ specificity = rule.1.key.specificity + shift) :
    (set.bestCandidate specificityOf context).map PermissionCandidate.state =
      ruleDecision {rule | rule ∈ set.rules} key context := by
  cases hbest : set.bestCandidate specificityOf context with
  | none =>
    rw [ruleDecision, if_neg, map_none]
    rintro ⟨rule, hrule, happlies⟩
    exact bestCandidate_eq_none hbest rule hrule _ ((h rule _).mpr ⟨happlies, rfl⟩)
  | some best =>
    refine state_eq_ruleDecision shift hbest ?_ ?_
    · intro rule hrule happlies
      exact ⟨hrule, (h rule _).mpr ⟨happlies, rfl⟩⟩
    · intro rule hrule specificity hwith _
      obtain ⟨happlies, hspecificity⟩ := (h rule specificity).mp hwith
      exact ⟨hrule, happlies, hspecificity⟩

/-- The pass finds what the rules decide as a set. -/
theorem resolveKeyIn_eq_ruleDecision (set : PermissionSet) (key : PermissionKey)
    (context : PermissionContext) :
    set.resolveKeyIn key context = ruleDecision {rule | rule ∈ set.rules} key context :=
  map_state_eq_ruleDecision 0 fun _ _ => appliesWith_keySpecificity

theorem bestCandidate_congr {other : PermissionKey → Option ℕ}
    (h : ∀ rule ∈ set.rules, rule.1.context.matchesContext context = true →
      specificityOf rule.1.key = other rule.1.key) :
    set.bestCandidate specificityOf context = set.bestCandidate other context := by
  rw [bestCandidate_eq_foldl, bestCandidate_eq_foldl]
  refine congrArg (foldl _ none) (filterMap_congr fun rule hrule => ?_)
  rw [candidateOf, candidateOf]
  split_ifs with hcontext
  · rfl
  · rw [h rule.1 (fst_mem_of_mem_zipIdx hrule) (by simpa using hcontext)]

/-- The rules of a scoped key that its parent does not have as well. -/
def ownRules (set : PermissionSet) (parent : PermissionKey) : Set PermissionRule :=
  {rule | rule ∈ set.rules ∧ rule.1.key.matchesKey parent = false}

section Scoped

variable {set : PermissionSet} {parent key pattern : PermissionKey}

theorem scopedKeySpecificity_own (hparent : pattern.matchesKey parent = false)
    (hkey : pattern.matchesKey key = true) :
    scopedKeySpecificity parent key pattern = some (pattern.specificity + 1) := by
  simp [scopedKeySpecificity, hparent, hkey]

theorem scopedKeySpecificity_parent (hscopes : parent.scopes key = true)
    (h : pattern.matchesKey key = true → pattern.matchesKey parent = true) :
    scopedKeySpecificity parent key pattern = keySpecificity parent pattern := by
  rw [scopedKeySpecificity, keySpecificity, hscopes]
  cases hparent : pattern.matchesKey parent with
  | true => simp
  | false =>
    have hkey : pattern.matchesKey key = false := by
      rw [← Bool.not_eq_true]
      exact fun hkey => absurd (h hkey) (by simp [hparent])
    simp [hkey]

theorem scopedKeySpecificity_cases {specificity : ℕ}
    (h : scopedKeySpecificity parent key pattern = some specificity) :
    pattern.matchesKey parent = true ∧ specificity = pattern.specificity ∨
      pattern.matchesKey parent = false ∧ pattern.matchesKey key = true ∧
        specificity = pattern.specificity + 1 ∨
      parent.scopes key = false ∧ pattern.matchesKey key = true ∧
        specificity = pattern.specificity + 1 := by
  rw [scopedKeySpecificity] at h
  cases hscopes : parent.scopes key <;> cases hparent : pattern.matchesKey parent <;>
    cases hkey : pattern.matchesKey key <;> simp_all

theorem appliesWith_outside {rule : PermissionRule} {specificity : ℕ}
    (hscopes : parent.scopes key = false) :
    AppliesWith (scopedKeySpecificity parent key) context rule specificity ↔
      rule.Applies key context ∧ specificity = rule.1.key.specificity + 1 := by
  have hkey : scopedKeySpecificity parent key rule.1.key =
      if rule.1.key.matchesKey key then some (rule.1.key.specificity + 1) else none := by
    cases hmatches : rule.1.key.matchesKey key with
    | true | false => simp [scopedKeySpecificity, hscopes, hmatches]
  constructor
  · rintro ⟨hcontext, hwith⟩
    rw [hkey] at hwith
    split_ifs at hwith with hmatches
    exact ⟨⟨hcontext, hmatches⟩, (Option.some.inj hwith).symm⟩
  · rintro ⟨⟨hcontext, hmatches⟩, rfl⟩
    exact ⟨hcontext, by rw [hkey, if_pos hmatches]⟩

/-- A rule of the scoped key itself is preferred to those of its parent. -/
theorem resolveScopedKeyIn_own (hscopes : parent.scopes key = true)
    (hown : ∃ rule ∈ set.ownRules parent, rule.Applies key context) :
    set.resolveScopedKeyIn parent key context =
      ruleDecision (set.ownRules parent) key context := by
  have happly : ∀ rule ∈ set.ownRules parent, rule.Applies key context → rule ∈ set.rules ∧
      AppliesWith (scopedKeySpecificity parent key) context rule
        (rule.1.key.specificity + 1) := by
    rintro rule ⟨hrule, hparent⟩ ⟨hcontext, hkey⟩
    exact ⟨hrule, hcontext, scopedKeySpecificity_own hparent hkey⟩
  obtain ⟨rule, hrule, happlies⟩ := hown
  obtain ⟨hmem, hwith⟩ := happly rule hrule happlies
  rw [resolveScopedKeyIn, bestScopedKeyCandidate]
  cases hbest : set.bestCandidate (scopedKeySpecificity parent key) context with
  | none => exact absurd hwith (bestCandidate_eq_none hbest rule hmem _)
  | some best =>
    refine state_eq_ruleDecision 1 hbest happly ?_
    intro other hother specificity hotherWith horder
    have hle := ((bestCandidate_eq_some hbest).2 rule hmem _ hwith).1
    rw [horder] at hle
    have hspecificity : rule.1.key.specificity + 1 ≤ specificity := by
      rcases Prod.Lex.toLex_le_toLex.mp hle with hlt | ⟨heq, _⟩
      · exact hlt.le
      · exact heq.le
    rcases scopedKeySpecificity_cases hotherWith.key with
      ⟨hparent, rfl⟩ | ⟨hparent, hkey, rfl⟩ | ⟨houtside, _⟩
    · have := PermissionKey.specificity_le_of_scopes hscopes happlies.key hrule.2 hparent
      omega
    · exact ⟨⟨hother, hparent⟩, ⟨hotherWith.context, hkey⟩, rfl⟩
    · rw [hscopes] at houtside
      cases houtside

theorem resolveScopedKeyIn_parent (hscopes : parent.scopes key = true)
    (hown : ¬ ∃ rule ∈ set.ownRules parent, rule.Applies key context) :
    set.resolveScopedKeyIn parent key context = set.resolveKeyIn parent context := by
  rw [resolveScopedKeyIn, bestScopedKeyCandidate, resolveKeyIn, bestKeyCandidate]
  refine congrArg _ (bestCandidate_congr fun rule hrule hcontext => ?_)
  refine scopedKeySpecificity_parent hscopes fun hkey => ?_
  by_contra hparent
  exact hown ⟨rule, ⟨hrule, by simpa using hparent⟩, hcontext, hkey⟩

theorem resolveScopedKeyIn_outside (hscopes : parent.scopes key = false) :
    set.resolveScopedKeyIn parent key context = set.resolveKeyIn key context := by
  rw [resolveKeyIn_eq_ruleDecision]
  exact map_state_eq_ruleDecision 1 fun _ _ => appliesWith_outside hscopes

end Scoped

/-- A rule for a scoped key alone comes before every rule for its parent. Without one the parent
decides. A key outside of the parent is resolved by itself. -/
theorem resolveScopedKeyIn_spec (set : PermissionSet) (parent key : PermissionKey)
    (context : PermissionContext) :
    (parent.scopes key = true →
      ((∃ rule ∈ set.ownRules parent, rule.Applies key context) →
        set.resolveScopedKeyIn parent key context =
          ruleDecision (set.ownRules parent) key context) ∧
      ((¬ ∃ rule ∈ set.ownRules parent, rule.Applies key context) →
        set.resolveScopedKeyIn parent key context = set.resolveKeyIn parent context)) ∧
    (parent.scopes key = false →
      set.resolveScopedKeyIn parent key context = set.resolveKeyIn key context) :=
  ⟨fun hscopes => ⟨resolveScopedKeyIn_own hscopes, resolveScopedKeyIn_parent hscopes⟩,
    resolveScopedKeyIn_outside⟩

example : (fromEntries [⟨⟨['f', 'l', 'y'], by decide⟩, .global, .allow⟩,
      ⟨⟨['f', 'l', 'y', '.', '*'], by decide⟩, .global, .deny⟩]).resolveScopedKeyIn
    ⟨['f', 'l', 'y'], by decide⟩ ⟨['f', 'l', 'y', '.', 'u', 'p'], by decide⟩ ⟨none, none, []⟩ =
      some .deny := by
  decide

theorem rules_pushWithSource (set : PermissionSet) (entry : PermissionEntry)
    (source : PermissionResolutionSource) :
    (set.pushWithSource entry source).rules = set.rules ++ [(entry, source)] := by
  rw [rules, pushWithSource, zip_append set.length_eq]
  rfl

theorem rules_foldl_pushWithSource (set : PermissionSet) (entries : List PermissionEntry)
    (source : PermissionResolutionSource) :
    (entries.foldl (fun effective entry => effective.pushWithSource entry source) set).rules =
      set.rules ++ entries.map fun entry => (entry, source) := by
  induction entries generalizing set with
  | nil => rw [foldl_nil, map_nil, append_nil]
  | cons entry entries ih =>
    rw [foldl_cons, ih, rules_pushWithSource, map_cons, append_assoc, singleton_append]

theorem mem_rules_foldl_pushWithSource (set : PermissionSet) (entries : List PermissionEntry)
    (source : PermissionResolutionSource) (rule : PermissionRule) :
    rule ∈ (entries.foldl
      (fun effective entry => effective.pushWithSource entry source) set).rules ↔
      rule ∈ set.rules ∨ (rule.1 ∈ entries ∧ rule.2 = source) := by
  rw [rules_foldl_pushWithSource, mem_append, List.mem_map]
  refine or_congr_right ⟨?_, fun h => ⟨rule.1, h.1, Prod.ext rfl h.2.symm⟩⟩
  rintro ⟨entry, hentry, rfl⟩
  exact ⟨hentry, rfl⟩

end PermissionSet

/-! ### The groups of a subject -/

namespace PermissionGroups

variable {groups : PermissionGroups}

/-- What appending some groups does: it adds those that can be reached from them, and their
rules. -/
structure Appended (groups : PermissionGroups) (starts : Set String)
    (before after : GroupCollection) : Prop where
  subset : before.appendedGroups ⊆ after.appendedGroups
  entered : ∀ name ∈ starts, name ∈ after.appendedGroups
  reached : ∀ name ∈ after.appendedGroups, name ∈ before.appendedGroups ∨
    ∃ start ∈ starts, Relation.ReflTransGen groups.Inherits start name
  closed : ∀ name ∈ after.appendedGroups, name ∉ before.appendedGroups →
    ∀ parent, groups.Inherits name parent → parent ∈ after.appendedGroups
  rules : ∀ rule, rule ∈ after.effective.rules ↔ rule ∈ before.effective.rules ∨
    ∃ name ∈ after.appendedGroups, name ∉ before.appendedGroups ∧ groups.GroupRule name rule

namespace Appended

variable {starts more : Set String} {before middle after : GroupCollection}

theorem unchanged (h : ∀ name ∈ starts, name ∈ before.appendedGroups) :
    Appended groups starts before before where
  subset := Finset.Subset.refl _
  entered := h
  reached := fun _ hname => .inl hname
  closed := fun _ hname hnot => absurd hname hnot
  rules := by
    intro rule
    constructor
    · exact .inl
    · rintro (hrule | ⟨name, hname, hnot, _⟩)
      · exact hrule
      · exact absurd hname hnot

theorem trans (h : Appended groups starts before middle) (h' : Appended groups more middle after) :
    Appended groups (starts ∪ more) before after where
  subset := h.subset.trans h'.subset
  entered := by
    rintro name (hname | hname)
    · exact h'.subset (h.entered name hname)
    · exact h'.entered name hname
  reached := by
    intro name hname
    rcases h'.reached name hname with hmiddle | ⟨start, hstart, hpath⟩
    · rcases h.reached name hmiddle with hbefore | ⟨start, hstart, hpath⟩
      · exact .inl hbefore
      · exact .inr ⟨start, .inl hstart, hpath⟩
    · exact .inr ⟨start, .inr hstart, hpath⟩
  closed := by
    intro name hname hnot parent hparent
    by_cases hmiddle : name ∈ middle.appendedGroups
    · exact h'.subset (h.closed name hmiddle hnot parent hparent)
    · exact h'.closed name hname hmiddle parent hparent
  rules := by
    intro rule
    rw [h'.rules, h.rules]
    constructor
    · rintro ((hrule | ⟨name, hname, hnot, hrule⟩) | ⟨name, hname, hnot, hrule⟩)
      · exact .inl hrule
      · exact .inr ⟨name, h'.subset hname, hnot, hrule⟩
      · exact .inr ⟨name, hname, fun hbefore => hnot (h.subset hbefore), hrule⟩
    · rintro (hrule | ⟨name, hname, hnot, hrule⟩)
      · exact .inl (.inl hrule)
      · by_cases hmiddle : name ∈ middle.appendedGroups
        · exact .inl (.inr ⟨name, hmiddle, hnot, hrule⟩)
        · exact .inr ⟨name, hname, hmiddle, hrule⟩

/-- A name without a group is only marked. -/
theorem missing {name : String} (hnew : name ∉ before.appendedGroups)
    (hlookup : groups.groups.lookup name = none) :
    Appended groups {name} before
      { before with appendedGroups := insert name before.appendedGroups } where
  subset := Finset.subset_insert _ _
  entered := by
    rintro _ rfl
    exact Finset.mem_insert_self _ _
  reached := by
    intro other hother
    rcases Finset.mem_insert.mp hother with rfl | hother
    · exact .inr ⟨other, rfl, .refl⟩
    · exact .inl hother
  closed := by
    rintro other hother hnot parent ⟨group, hgroup, _⟩
    rcases Finset.mem_insert.mp hother with rfl | hother
    · rw [hlookup] at hgroup
      cases hgroup
    · exact absurd hother hnot
  rules := by
    intro rule
    constructor
    · exact .inl
    · rintro (hrule | ⟨other, hother, hnot, group, hgroup, _⟩)
      · exact hrule
      · rcases Finset.mem_insert.mp hother with rfl | hother
        · rw [hlookup] at hgroup
          cases hgroup
        · exact absurd hother hnot

/-- A group is marked, then those that it inherits from are appended, and then its own rules. -/
theorem group {name : String} {group : PermissionGroup} (hnew : name ∉ before.appendedGroups)
    (hlookup : groups.groups.lookup name = some group)
    (h : Appended groups {parent | parent ∈ group.inherits}
      { before with appendedGroups := insert name before.appendedGroups } after) :
    Appended groups {name} before { after with
      effective := group.permissions.entries.foldl
        (fun effective entry => effective.pushGroup entry name group.priority)
          after.effective } where
  subset := (Finset.subset_insert _ _).trans h.subset
  entered := by
    rintro _ rfl
    exact h.subset (Finset.mem_insert_self _ _)
  reached := by
    intro other hother
    rcases h.reached other hother with hbefore | ⟨start, hstart, hpath⟩
    · rcases Finset.mem_insert.mp hbefore with rfl | hbefore
      · exact .inr ⟨other, rfl, .refl⟩
      · exact .inl hbefore
    · exact .inr ⟨name, rfl, .head ⟨group, hlookup, hstart⟩ hpath⟩
  closed := by
    intro other hother hnot parent hparent
    by_cases hname : other = name
    · obtain ⟨group', hgroup', hinherits⟩ := hparent
      rw [hname, hlookup, Option.some.injEq] at hgroup'
      subst hgroup'
      exact h.entered parent hinherits
    · exact h.closed other hother (by simp [hname, hnot]) parent hparent
  rules := by
    intro rule
    have hpush := PermissionSet.mem_rules_foldl_pushWithSource after.effective
      group.permissions.entries (.group name group.priority) rule
    refine hpush.trans ?_
    rw [h.rules]
    constructor
    · rintro ((hrule | ⟨other, hother, hnot, hrule⟩) | ⟨hentry, hsource⟩)
      · exact .inl hrule
      · exact .inr ⟨other, hother, fun hbefore => hnot (Finset.mem_insert_of_mem hbefore), hrule⟩
      · exact .inr ⟨name, h.subset (Finset.mem_insert_self _ _), hnew, group, hlookup,
          hentry, hsource⟩
    · rintro (hrule | ⟨other, hother, hnot, hrule⟩)
      · exact .inl (.inl hrule)
      · by_cases hname : other = name
        · obtain ⟨group', hgroup', hentry, hsource⟩ := hrule
          rw [hname] at hgroup' hsource
          rw [hlookup, Option.some.injEq] at hgroup'
          subst hgroup'
          exact .inr ⟨hentry, hsource⟩
        · exact .inl (.inr ⟨other, hother, by simp [hname, hnot], hrule⟩)

/-- From nothing, exactly what can be reached is appended. -/
theorem mem_iff (h : Appended groups starts before after) (hempty : before.appendedGroups = ∅)
    {name : String} : name ∈ after.appendedGroups ↔
      ∃ start ∈ starts, Relation.ReflTransGen groups.Inherits start name := by
  have hnew : ∀ other, other ∉ before.appendedGroups := fun other hother =>
    Finset.notMem_empty other (hempty ▸ hother)
  constructor
  · intro hname
    rcases h.reached name hname with hbefore | hstart
    · exact absurd hbefore (hnew name)
    · exact hstart
  · rintro ⟨start, hstart, hpath⟩
    induction hpath with
    | refl => exact h.entered start hstart
    | tail _ hparent ih => exact h.closed _ ih (hnew _) _ hparent

end Appended

/-- The names of groups that were not appended. -/
def openGroups (groups : PermissionGroups) (collection : GroupCollection) : Finset String :=
  groups.groups.keys \ collection.appendedGroups

theorem openGroups_subset {starts : Set String} {before after : GroupCollection}
    (h : Appended groups starts before after) :
    groups.openGroups after ⊆ groups.openGroups before :=
  Finset.sdiff_subset_sdiff (Finset.Subset.refl _) h.subset

theorem card_openGroups_insert {collection : GroupCollection} {name : String}
    (hkey : name ∈ groups.groups.keys) (hnew : name ∉ collection.appendedGroups) :
    (groups.openGroups { collection with
      appendedGroups := insert name collection.appendedGroups }).card <
      (groups.openGroups collection).card := by
  rw [openGroups, Finset.sdiff_insert]
  exact Finset.card_erase_lt_of_mem (Finset.mem_sdiff.mpr ⟨hkey, hnew⟩)

theorem exists_foldlM_appendGroup {depth : ℕ}
    (hstep : ∀ collection name, (groups.openGroups collection).card < depth →
      ∃ after, groups.appendGroup depth collection name = some after ∧
        Appended groups {name} collection after)
    (names : List String) (collection : GroupCollection)
    (hdepth : (groups.openGroups collection).card < depth) :
    ∃ after, names.foldlM (groups.appendGroup depth) collection = some after ∧
      Appended groups {name | name ∈ names} collection after := by
  induction names generalizing collection with
  | nil => exact ⟨collection, rfl, Appended.unchanged fun _ hname => nomatch hname⟩
  | cons name names ih =>
    obtain ⟨middle, hmiddle, hfirst⟩ := hstep collection name hdepth
    have hopen := Finset.card_le_card (openGroups_subset hfirst)
    obtain ⟨after, hafter, hrest⟩ := ih middle (hopen.trans_lt hdepth)
    refine ⟨after, ?_, ?_⟩
    · rw [foldlM_cons, hmiddle]
      exact hafter
    · have hset : ({name} ∪ {other | other ∈ names} : Set String) =
          {other | other ∈ name :: names} := by
        ext other
        simp
      rw [← hset]
      exact hfirst.trans hrest

/-- Appending a group ends, since every nested call has one group less to visit. -/
theorem exists_appendGroup (depth : ℕ) (collection : GroupCollection) (name : String)
    (hdepth : (groups.openGroups collection).card < depth) :
    ∃ after, groups.appendGroup depth collection name = some after ∧
      Appended groups {name} collection after := by
  induction depth generalizing collection name with
  | zero => exact absurd hdepth (Nat.not_lt_zero _)
  | succ depth ih =>
    rw [appendGroup]
    split_ifs with hold
    · exact ⟨collection, rfl, .unchanged fun _ hname => hname ▸ hold⟩
    · cases hlookup : groups.groups.lookup name with
      | none => exact ⟨_, rfl, .missing hold hlookup⟩
      | some group =>
        have hkey : name ∈ groups.groups.keys :=
          Finmap.mem_keys.mpr (Finmap.mem_of_lookup_eq_some hlookup)
        have hless := (card_openGroups_insert hkey hold).trans_le (Nat.le_of_lt_succ hdepth)
        obtain ⟨after, hafter, happended⟩ :=
          exists_foldlM_appendGroup ih group.inherits _ hless
        refine ⟨_, ?_, .group hold hlookup happended⟩
        dsimp only
        rw [hafter]
        rfl

/-- The collected rules are those of the subject as a set. -/
theorem exists_effectivePermissions (groups : PermissionGroups) (assignedGroups : List String)
    (subjectPermissions : PermissionSet) :
    ∃ effective, groups.effectivePermissions assignedGroups subjectPermissions = some effective ∧
      {rule | rule ∈ effective.rules} = groups.rulesOf assignedGroups subjectPermissions := by
  have hcard : (groups.openGroups ⟨.new, ∅⟩).card < groups.groups.keys.card + 1 := by
    rw [openGroups, Finset.sdiff_empty]
    omega
  obtain ⟨first, hfirst, hdefault⟩ :=
    exists_foldlM_appendGroup (exists_appendGroup _) groups.defaultGroups ⟨.new, ∅⟩ hcard
  have hopen := Finset.card_le_card (openGroups_subset hdefault)
  obtain ⟨second, hsecond, hassigned⟩ :=
    exists_foldlM_appendGroup (exists_appendGroup _) assignedGroups first (hopen.trans_lt hcard)
  have happended := hdefault.trans hassigned
  have hmember : ∀ name, name ∈ second.appendedGroups ↔ groups.Member assignedGroups name :=
    fun name => happended.mem_iff rfl
  refine ⟨_, by rw [effectivePermissions, hfirst, bind_eq_bind, bind_some, hsecond]; rfl,
    ?_⟩
  ext rule
  have hpush := PermissionSet.mem_rules_foldl_pushWithSource second.effective
    subjectPermissions.entries .subject rule
  refine hpush.trans ?_
  rw [happended.rules]
  constructor
  · rintro ((hrule | ⟨name, hname, _, hrule⟩) | hsubject)
    · cases hrule
    · exact .inl ⟨name, (hmember name).mp hname, hrule⟩
    · exact .inr hsubject
  · rintro (⟨name, hname, hrule⟩ | hsubject)
    · exact .inl (.inr ⟨name, (hmember name).mpr hname, Finset.notMem_empty _, hrule⟩)
    · exact .inr hsubject

/-! ### Order and repetition -/

namespace SameContents

variable {other : PermissionGroups}

theorem symm (h : groups.SameContents other) : other.SameContents groups where
  defaultGroups := fun name => (h.defaultGroups name).symm
  groups := by
    intro name
    have hname := h.groups name
    cases hleft : groups.groups.lookup name <;> cases hright : other.groups.lookup name <;>
      rw [hleft, hright] at hname <;> cases hname
    · exact .none
    · rename_i hsame
      exact .some ⟨hsame.priority.symm, fun name => (hsame.inherits name).symm,
        fun entry => (hsame.entries entry).symm⟩

variable {name : String} {subjectPermissions subjectPermissions' : PermissionSet}
  {assignedGroups assignedGroups' : List String}

theorem lookup (h : groups.SameContents other) {group : PermissionGroup}
    (hgroup : groups.groups.lookup name = some group) :
    ∃ group', other.groups.lookup name = some group' ∧ group.SameContents group' := by
  have hname := h.groups name
  rw [hgroup] at hname
  cases hother : other.groups.lookup name with
  | none =>
    rw [hother] at hname
    cases hname
  | some group' =>
    rw [hother] at hname
    cases hname with
    | some hsame => exact ⟨group', rfl, hsame⟩

theorem inherits (h : groups.SameContents other) {parent : String}
    (hinherits : groups.Inherits name parent) : other.Inherits name parent := by
  obtain ⟨group, hgroup, hparent⟩ := hinherits
  obtain ⟨group', hgroup', hsame⟩ := h.lookup hgroup
  exact ⟨group', hgroup', (hsame.inherits parent).mp hparent⟩

theorem rulesOf_subset (h : groups.SameContents other)
    (hassigned : ∀ name, name ∈ assignedGroups ↔ name ∈ assignedGroups')
    (hsubject : ∀ entry, entry ∈ subjectPermissions.entries ↔ entry ∈ subjectPermissions'.entries) :
    groups.rulesOf assignedGroups subjectPermissions ⊆
      other.rulesOf assignedGroups' subjectPermissions' := by
  rintro rule (⟨name, ⟨start, hstart, hpath⟩, group, hgroup, hentry, hsource⟩ | ⟨hentry, hsource⟩)
  · obtain ⟨group', hgroup', hsame⟩ := h.lookup hgroup
    refine .inl ⟨name, ⟨start, ?_, hpath.lift id fun _ _ => h.inherits⟩, group', hgroup',
      (hsame.entries rule.1).mp hentry, ?_⟩
    · rwa [← h.defaultGroups, ← hassigned]
    · rw [hsource, hsame.priority]
  · exact .inr ⟨(hsubject rule.1).mp hentry, hsource⟩

theorem rulesOf_eq (h : groups.SameContents other)
    (hassigned : ∀ name, name ∈ assignedGroups ↔ name ∈ assignedGroups')
    (hsubject : ∀ entry, entry ∈ subjectPermissions.entries ↔ entry ∈ subjectPermissions'.entries) :
    groups.rulesOf assignedGroups subjectPermissions =
      other.rulesOf assignedGroups' subjectPermissions' :=
  Set.Subset.antisymm (h.rulesOf_subset hassigned hsubject)
    (h.symm.rulesOf_subset (fun name => (hassigned name).symm) fun entry => (hsubject entry).symm)

end SameContents

end PermissionGroups

theorem PermissionRule.precedence_lt {rule other : PermissionRule}
    (h : other.1.key.specificity < rule.1.key.specificity) : other.precedence < rule.precedence :=
  Prod.Lex.toLex_lt_toLex.mpr (.inl h)

/-- Resolving a key gives what the subject's rules decide, whatever the order and repetition of
groups and rules. An exact key precedes all others, and a longer wildcard precedes a shorter one. -/
theorem PermissionGroups.resolveKeyIn_effectivePermissions (groups : PermissionGroups)
    (assignedGroups : List String) (subjectPermissions : PermissionSet) (key : PermissionKey)
    (context : PermissionContext) :
    ∃ effective, groups.effectivePermissions assignedGroups subjectPermissions = some effective ∧
      effective.resolveKeyIn key context =
        ruleDecision (groups.rulesOf assignedGroups subjectPermissions) key context ∧
      (∀ (groups' : PermissionGroups) (assignedGroups' : List String)
        (subjectPermissions' effective' : PermissionSet), groups.SameContents groups' →
        (∀ name, name ∈ assignedGroups ↔ name ∈ assignedGroups') →
        (∀ entry, entry ∈ subjectPermissions.entries ↔ entry ∈ subjectPermissions'.entries) →
        groups'.effectivePermissions assignedGroups' subjectPermissions' = some effective' →
        effective'.resolveKeyIn key context = effective.resolveKeyIn key context) ∧
      ∀ rule other : PermissionRule, rule.Applies key context → other.Applies key context →
        other.1.key ≠ key →
        rule.1.key = key ∨ other.1.key.value.length < rule.1.key.value.length →
        other.precedence < rule.precedence := by
  obtain ⟨effective, heffective, hrules⟩ :=
    exists_effectivePermissions groups assignedGroups subjectPermissions
  refine ⟨effective, heffective, ?_, ?_, ?_⟩
  · rw [PermissionSet.resolveKeyIn_eq_ruleDecision, hrules]
  · intro groups' assignedGroups' subjectPermissions' effective' hsame hassigned
      hsubject heffective'
    obtain ⟨other, hother, hrules'⟩ :=
      exists_effectivePermissions groups' assignedGroups' subjectPermissions'
    rw [heffective', Option.some.injEq] at hother
    subst hother
    rw [PermissionSet.resolveKeyIn_eq_ruleDecision, PermissionSet.resolveKeyIn_eq_ruleDecision,
      hrules, hrules', hsame.rulesOf_eq hassigned hsubject]
  · intro rule other hrule hother hne hbetter
    apply PermissionRule.precedence_lt
    rcases hbetter with hexact | hlength
    · rw [hexact]
      exact PermissionKey.specificity_lt_of_ne hother.key hne
    · exact PermissionKey.specificity_lt_of_length_lt hother.key hrule.key hne hlength

theorem PermissionGroups.SameContents.refl (groups : PermissionGroups) :
    groups.SameContents groups where
  defaultGroups := fun _ => Iff.rfl
  groups := by
    intro name
    cases groups.groups.lookup name with
    | none => exact .none
    | some group => exact .some ⟨rfl, fun _ => Iff.rfl, fun _ => Iff.rfl⟩

/-- Two groups that inherit from each other: the staff may do everything below `c`, and builders may
not use the exact key. -/
def circularGroups : PermissionGroups where
  defaultGroups := ["staff"]
  groups := ((∅ : HashMap String PermissionGroup).insert "staff"
      ⟨1, ["builder"], .fromEntries [⟨⟨['c', '.', '*'], rfl⟩, .global, .allow⟩]⟩).insert "builder"
      ⟨0, ["staff"], .fromEntries [⟨⟨['c', '.', 'd'], rfl⟩, .global, .deny⟩]⟩

/-- The exact key decides, also if the groups are given in another order and repeated. -/
theorem PermissionGroups.resolveKeyIn_effectivePermissions_circular :
    ∃ effective effective', circularGroups.effectivePermissions ["builder", "staff"] .new =
        some effective ∧
      circularGroups.effectivePermissions ["staff", "builder", "staff"] .new = some effective' ∧
      effective.resolveKeyIn ⟨['c', '.', 'd'], rfl⟩ ⟨none, none, []⟩ = some .deny ∧
      effective'.resolveKeyIn ⟨['c', '.', 'd'], rfl⟩ ⟨none, none, []⟩ = some .deny := by
  obtain ⟨effective, heffective, _, hsame, _⟩ := circularGroups.resolveKeyIn_effectivePermissions
    ["builder", "staff"] .new ⟨['c', '.', 'd'], rfl⟩ ⟨none, none, []⟩
  obtain ⟨effective', heffective', _⟩ := circularGroups.exists_effectivePermissions
    ["staff", "builder", "staff"] .new
  have hdeny : (circularGroups.effectivePermissions ["builder", "staff"] .new).bind
      (fun set => set.resolveKeyIn ⟨['c', '.', 'd'], rfl⟩ ⟨none, none, []⟩) = some .deny := by
    decide +kernel
  rw [heffective, bind_some] at hdeny
  refine ⟨effective, effective', heffective, heffective', hdeny, ?_⟩
  rw [hsame circularGroups ["staff", "builder", "staff"] .new effective' (.refl _)
    (by simp only [mem_cons]; tauto) (fun _ => Iff.rfl) heffective', hdeny]

end Steel
