import RecordApi.Http.Router
import RecordApi.Proofs.Success

/-!
# What routes capture

The search for the route of a path follows all patterns at once. Where it ends at a route, the
pattern of the route alone takes the path, and the parameters take from it what the search says
(`Branch.find_takes`). So the parameters that a resource sees are those of its pattern, each with
the text of its segment, or none at all if one of the segments is no text (`Router.find?_eq_some`,
`RoutePattern.params_of_segments`, `RoutePattern.params_eq_nil`).
-/

namespace RecordApi

variable {α : Type}

/-! ## Patterns -/

namespace RoutePattern

/-- Nothing comes behind a parameter that takes all that is left. -/
def RestLast : RoutePattern → Prop
  | [] => True
  | .rest _ :: pattern => pattern = []
  | .char _ :: pattern | .param _ :: pattern => RestLast pattern

theorem restLast_ofChars (s : List Char) : (ofChars s).RestLast := by
  fun_induction ofChars s with
  | case1 => trivial
  | case2 s ih => exact ih
  | case3 s => rfl
  | case4 c s _ _ ih => exact ih

/-- Characters that stand for themselves capture nothing. -/
theorem capture?_chars_append (s : List Char) (pattern : RoutePattern) (path : List Char) :
    capture? (s.map .char ++ pattern) (s ++ path) = capture? pattern path := by
  induction s with
  | nil => rfl
  | cons c s ih => simpa [capture?] using ih

theorem length_of_capture? {pattern : RoutePattern} {path : List Char} {values : List (List Char)}
    (h : capture? pattern path = some values) : values.length = pattern.names.length := by
  fun_induction capture? pattern path generalizing values with
  | case1 => cases h; rfl
  | case2 c pattern path ih => exact ih h
  | case3 => cases h
  | case4 => cases h
  | case5 name pattern path hvalue ih =>
      obtain ⟨rest, hrest, rfl⟩ := Option.map_eq_some_iff.1 h
      simp [names, ih hrest]
  | case6 => cases h
  | case7 => cases h; rfl
  | case8 => cases h

end RoutePattern

/-! ## Stretches -/

namespace Branch

theorem exists_eq_stretchOf_append (pattern : RoutePattern) :
    ∃ rest, pattern = (stretchOf pattern).map .char ++ rest := by
  fun_induction stretchOf pattern with
  | case1 c pattern ih =>
      obtain ⟨rest, hrest⟩ := ih
      exact ⟨rest, congrArg (RoutePart.char c :: ·) hrest⟩
  | case2 pattern => exact ⟨pattern, rfl⟩

theorem common_prefix (s t : List Char) : common s t <+: s ∧ common s t <+: t := by
  fun_induction common s t with
  | case1 c s t ih => simpa [List.cons_prefix_cons] using ih
  | case2 => simp
  | case3 => simp

theorem foldl_common_prefix (b : Branch α) (s : List Char) :
    b.foldl (fun s q => common s (stretchOf q.1)) s <+: s ∧
      ∀ p ∈ b, b.foldl (fun s q => common s (stretchOf q.1)) s <+: stretchOf p.1 := by
  induction b generalizing s with
  | nil => simp
  | cons q b ih =>
      obtain ⟨hstart, hall⟩ := ih (common s (stretchOf q.1))
      have hcommon := common_prefix s (stretchOf q.1)
      refine ⟨hstart.trans hcommon.1, fun p hp => ?_⟩
      rcases List.mem_cons.1 hp with rfl | hp
      · exact hstart.trans hcommon.2
      · exact hall p hp

theorem stretch_prefix {b : Branch α} {p : RoutePattern × α} (hp : p ∈ b) :
    b.stretch <+: stretchOf p.1 := by
  cases b with
  | nil => cases hp
  | cons q b =>
      obtain ⟨hstart, hall⟩ := foldl_common_prefix b (stretchOf q.1)
      rcases List.mem_cons.1 hp with rfl | hp
      · exact hstart
      · exact hall p hp

/-- All patterns begin with the characters that they have in common. -/
theorem eq_stretch_append_drop {b : Branch α} {p : RoutePattern × α} (hp : p ∈ b) :
    p.1 = b.stretch.map .char ++ p.1.drop b.stretch.length := by
  obtain ⟨more, hmore⟩ := stretch_prefix hp
  obtain ⟨rest, hrest⟩ := exists_eq_stretchOf_append p.1
  rw [← hmore, List.map_append, List.append_assoc] at hrest
  conv => lhs; rw [hrest]
  rw [hrest, List.drop_left' (List.length_map _)]

/-! ## Searches -/

/-- One of some patterns, alone, takes a path, with the given values for its parameters. -/
def Takes (b : Branch α) (path : List Char) (target : α) (values : List (List Char)) : Prop :=
  ∃ pattern, (pattern, target) ∈ b ∧ RoutePattern.capture? pattern path = some values

variable {b : Branch α} {path : List Char} {target : α} {values : List (List Char)}

theorem Takes.mono {next : Branch α} (h : next.Takes path target values) (hsub : next ⊆ b) :
    b.Takes path target values := by
  obtain ⟨pattern, hmem, hcapture⟩ := h
  exact ⟨pattern, hsub hmem, hcapture⟩

/-- What a pattern takes behind the common characters, it takes with them in front. -/
theorem Takes.of_drop (h : (b.drop b.stretch.length).Takes path target values) :
    b.Takes (b.stretch ++ path) target values := by
  obtain ⟨pattern, hmem, hcapture⟩ := h
  obtain ⟨p, hp, hdrop⟩ := List.mem_map.1 hmem
  rw [Prod.mk.injEq] at hdrop
  obtain ⟨rfl, rfl⟩ := hdrop
  refine ⟨p.1, hp, ?_⟩
  rw [eq_stretch_append_drop hp, RoutePattern.capture?_chars_append]
  exact hcapture

theorem takes_of_target? (h : b.target? = some target) : b.Takes [] target [] := by
  obtain ⟨p, hp, hend⟩ := List.exists_of_findSome?_eq_some h
  split at hend
  · next hnil =>
    cases hend
    obtain ⟨pattern, target⟩ := p
    rw [List.isEmpty_iff] at hnil
    exact ⟨[], hnil ▸ hp, rfl⟩
  · cases hend

theorem mem_of_mem_behindParam {pattern : RoutePattern} (h : (pattern, target) ∈ b.behindParam) :
    ∃ name, (.param name :: pattern, target) ∈ b := by
  obtain ⟨⟨here, t⟩, hp, hbehind⟩ := List.mem_filterMap.1 h
  match here, hbehind with
  | .param name :: pattern, hbehind =>
      cases hbehind
      exact ⟨name, hp⟩

/-- What is taken behind a parameter, is taken with its value in front. -/
theorem Takes.of_behindParam (hvalue : RoutePattern.nameOf path ≠ [])
    (h : b.behindParam.Takes (RoutePattern.behindName path) target values) :
    b.Takes path target (RoutePattern.nameOf path :: values) := by
  obtain ⟨pattern, hmem, hcapture⟩ := h
  obtain ⟨name, hmem⟩ := mem_of_mem_behindParam hmem
  refine ⟨_, hmem, ?_⟩
  rw [RoutePattern.capture?, if_neg (by simpa using hvalue), hcapture]
  rfl

theorem takes_of_catchAll? (hb : ∀ p ∈ b, p.1.RestLast) (hpath : path ≠ [])
    (h : b.catchAll? = some target) : b.Takes path target [path] := by
  obtain ⟨⟨pattern, t⟩, hp, hrest⟩ := List.exists_of_findSome?_eq_some h
  match pattern, hrest with
  | .rest name :: pattern, hrest =>
      cases hrest
      obtain rfl : pattern = [] := hb _ hp
      refine ⟨_, hp, ?_⟩
      rw [RoutePattern.capture?, if_neg (by simpa using hpath)]

/-! ## Steps of a search -/

theorem deadEnd_ne_route (left : List Char) : deadEnd left ≠ .route target values := by
  unfold deadEnd
  split <;> exact nofun

theorem literalStep_ne_route (c : Char) (more : List Char) :
    b.literalStep c more ≠ .stop (.route target values) := by
  unfold literalStep
  dsimp only
  split
  · split
    · exact fun h => deadEnd_ne_route _ (RouteStep.stop.inj h)
    · exact nofun
  · split <;> exact nofun

theorem subset_of_literalStep {c : Char} {more : List Char} {next : Branch α}
    (h : b.literalStep c more = .enter next) : next ⊆ b := by
  unfold literalStep at h
  dsimp only at h
  split at h
  · cases h
  · split at h
    · cases h
    · cases h
      exact List.filter_sublist.subset

theorem behindName_eq_nil_iff {s : List Char} :
    RoutePattern.behindName s = [] ↔ RoutePattern.nameOf s = s := by
  have happend : RoutePattern.nameOf s ++ RoutePattern.behindName s = s :=
    List.takeWhile_append_dropWhile
  constructor
  · intro h
    rw [h, List.append_nil] at happend
    exact happend
  · intro h
    rw [h] at happend
    exact List.append_right_eq_self.1 happend

theorem takes_of_paramStep (hb : ∀ p ∈ b, p.1.RestLast) (hpath : path ≠ [])
    (h : b.paramStep path = .stop (.route target values)) : b.Takes path target values := by
  unfold paramStep at h
  dsimp only at h
  split at h
  · next hrest =>
    cases h
    exact takes_of_catchAll? hb hpath hrest
  · split at h
    · cases h
    · split at h
      · next hend =>
        split at h
        · next htarget =>
          cases h
          refine Takes.of_behindParam ?_ (hend.symm ▸ takes_of_target? htarget)
          rw [behindName_eq_nil_iff.1 hend]
          exact hpath
        · split at h <;> cases h
      · split at h
        · cases h
        · split at h
          · exact absurd (RouteStep.stop.inj h) (deadEnd_ne_route _)
          · split at h <;> cases h

theorem subset_of_paramStep {next : Branch α} (h : b.paramStep path = .enter next) :
    RoutePattern.nameOf path ≠ [] ∧ next ⊆ b.behindParam := by
  unfold paramStep at h
  dsimp only at h
  split at h
  · cases h
  · split at h
    · cases h
    · split at h
      · split at h
        · cases h
        · split at h <;> cases h
      · split at h
        · cases h
        · next hvalue =>
          split at h
          · cases h
          · split at h
            · cases h
            · cases h
              exact ⟨hvalue, List.filter_sublist.subset⟩

theorem Found.after_eq_route {value : List Char} {found : Found α}
    (h : found.after value = .route target values) :
    ∃ rest, found = .route target rest ∧ values = value :: rest := by
  cases found with
  | route t rest =>
      cases h
      exact ⟨rest, rfl, rfl⟩
  | missed => cases h
  | refused => cases h

theorem restLast_drop {pattern : RoutePattern} (h : pattern.RestLast) (n : Nat) :
    RoutePattern.RestLast (pattern.drop n) := by
  induction pattern generalizing n with
  | nil => simpa using h
  | cons part pattern ih =>
      cases n with
      | zero => exact h
      | succ n =>
          cases part with
          | char c => exact ih h n
          | param name => exact ih h n
          | rest name =>
              obtain rfl : pattern = [] := h
              simp [RoutePattern.RestLast]

/-- Searches along paths of less than some length end at patterns that take the path. -/
def SoundBelow (n : Nat) (target : α) : Prop :=
  ∀ (b : Branch α) (path : List Char) (values : List (List Char)), path.length < n →
    (∀ p ∈ b, p.1.RestLast) → b.find path = .route target values → b.Takes path target values

theorem takes_of_literal {n : Nat} (hsound : SoundBelow n target) (hb : ∀ p ∈ b, p.1.RestLast)
    {c : Char} {more : List Char} (hlen : (c :: more).length < n) {next : Branch α}
    (hstep : b.literalStep c more = .enter next)
    (hfind : next.find (c :: more) = .route target values) :
    b.Takes (c :: more) target values := by
  have hsub := subset_of_literalStep hstep
  exact (hsound _ _ _ hlen (fun p hp => hb p (hsub hp)) hfind).mono hsub

theorem takes_of_param {n : Nat} (hsound : SoundBelow n target) (hb : ∀ p ∈ b, p.1.RestLast)
    (hpath : path ≠ []) (hlen : path.length < n)
    (h : (match b.paramStep path with
      | .stop found => found
      | .enter next => (next.find (RoutePattern.behindName path)).after
          (RoutePattern.nameOf path)) = .route target values) :
    b.Takes path target values := by
  split at h
  · next hstep =>
    subst h
    exact takes_of_paramStep hb hpath hstep
  · next next hstep =>
    obtain ⟨hvalue, hsub⟩ := subset_of_paramStep hstep
    obtain ⟨rest, hfind, rfl⟩ := Found.after_eq_route h
    have hnext : ∀ p ∈ next, p.1.RestLast := by
      intro p hp
      obtain ⟨name, hmem⟩ := mem_of_mem_behindParam (hsub hp)
      exact hb (.param name :: p.1, p.2) hmem
    have hshorter := Nat.lt_of_le_of_lt (RoutePattern.length_behindName_le path) hlen
    exact ((hsound _ _ _ hshorter hnext hfind).mono hsub).of_behindParam hvalue

/-- Where a search ends at a route, its pattern takes the path. -/
theorem find_takes (hb : ∀ p ∈ b, p.1.RestLast) (h : b.find path = .route target values) :
    b.Takes path target values := by
  induction hn : path.length using Nat.strongRecOn generalizing b path values with
  | ind n ih =>
    have hsound : SoundBelow n target := fun b path values hlen hb h => ih _ hlen hb h rfl
    rw [find] at h
    dsimp only at h
    split at h
    · cases h
    · next hzero =>
      split at h
      · split at h
        · cases h
        · exact absurd h (deadEnd_ne_route _)
      · next hstretch =>
        have hpath : path = b.stretch ++ path.drop b.stretch.length := by
          rw [Bool.not_eq_true', Bool.not_eq_false, List.isPrefixOf_iff_prefix] at hstretch
          exact (List.prefix_iff_eq_append.1 hstretch).symm
        have hhere : ∀ p ∈ b.drop b.stretch.length, p.1.RestLast := by
          intro p hp
          obtain ⟨q, hq, rfl⟩ := List.mem_map.1 hp
          exact restLast_drop (hb q hq) _
        rw [hpath]
        refine Takes.of_drop ?_
        split at h
        · next hleft =>
          rw [hleft]
          split at h
          · next htarget =>
            cases h
            exact takes_of_target? htarget
          · exact absurd h (deadEnd_ne_route _)
        · next c more hleft =>
          have hlen : (c :: more).length < n := hn ▸ length_lt_of_drop_eq_cons hzero hleft
          rw [hleft]
          -- the characters are tried first, then the parameter
          cases hstep : (b.drop b.stretch.length).literalStep c more with
          | stop found =>
              rw [hstep] at h
              cases found with
              | route => exact absurd hstep (literalStep_ne_route _ _)
              | missed => exact takes_of_param hsound hhere (List.cons_ne_nil _ _) hlen h
              | refused => cases h
          | enter next =>
              rw [hstep] at h
              dsimp only at h
              cases hfind : next.find (c :: more) with
              | route t vs =>
                  rw [hfind] at h
                  cases h
                  exact takes_of_literal hsound hhere hlen hstep hfind
              | missed =>
                  rw [hfind] at h
                  exact takes_of_param hsound hhere (List.cons_ne_nil _ _) hlen h
              | refused =>
                  rw [hfind] at h
                  cases h

end Branch

/-! ## Parameters -/

namespace RoutePattern

/-- Where all segments are texts, a parameter is its name with the text of its segment. -/
theorem params_of_segments {captured : List (String × List Char)}
    (h : ∀ p ∈ captured, (Uri.segment? p.2).isSome = true) :
    List.Forall₂ (fun c p => p.1 = c.1 ∧ Uri.segment? c.2 = some p.2) captured
      (params captured) := by
  obtain ⟨ps, hps, hall⟩ : ∃ ps,
      captured.mapM (fun c => (Uri.segment? c.2).map (c.1, ·)) = some ps ∧
      List.Forall₂ (fun c p => p.1 = c.1 ∧ Uri.segment? c.2 = some p.2) captured ps := by
    induction captured with
    | nil => exact ⟨[], rfl, .nil⟩
    | cons c captured ih =>
        obtain ⟨hc, hcaptured⟩ := List.forall_mem_cons.1 h
        obtain ⟨text, htext⟩ := Option.isSome_iff_exists.1 hc
        obtain ⟨ps, hps, hall⟩ := ih hcaptured
        refine ⟨(c.1, text) :: ps, ?_, .cons ⟨rfl, htext⟩ hall⟩
        simp [List.mapM_cons, htext, hps]
  unfold params
  rw [hps]
  exact hall

/-- Where one segment is no text, there are no parameters. -/
theorem params_eq_nil {captured : List (String × List Char)}
    (h : ∃ p ∈ captured, Uri.segment? p.2 = none) : params captured = [] := by
  have hnone : captured.mapM (fun c => (Uri.segment? c.2).map (c.1, ·)) = none := by
    obtain ⟨p, hp, hsegment⟩ := h
    induction captured with
    | nil => cases hp
    | cons c captured ih =>
        rw [List.mapM_cons]
        rcases List.mem_cons.1 hp with rfl | hp
        · rw [hsegment]
          rfl
        · rw [ih hp]
          cases (Uri.segment? c.2).map (c.1, ·) <;> rfl
  unfold params
  rw [hnone]
  rfl

end RoutePattern

namespace Router

variable {σ : Type} {router : Router σ}

/-- A path that takes a route is taken by its pattern, and every parameter of the pattern has a
segment. -/
theorem find?_eq_some (htexts : ∀ route ∈ router, ∃ text, route.pattern = .ofText text)
    {path : List Char} {route : Route σ} {captured : List (String × List Char)}
    (h : router.find? path = some (route, captured)) :
    route ∈ router ∧ captured.map Prod.fst = route.pattern.names ∧
      route.pattern.capture? path = some (captured.map Prod.snd) := by
  unfold find? at h
  split at h
  · next values hfind =>
    cases h
    have hlast : ∀ p ∈ router.map fun route => (route.pattern, route), p.1.RestLast := by
      intro p hp
      obtain ⟨route, hroute, rfl⟩ := List.mem_map.1 hp
      obtain ⟨text, htext⟩ := htexts route hroute
      dsimp only
      rw [htext]
      exact RoutePattern.restLast_ofChars _
    obtain ⟨pattern, hmem, hcapture⟩ := Branch.find_takes hlast hfind
    obtain ⟨route', hroute, hpair⟩ := List.mem_map.1 hmem
    rw [Prod.mk.injEq] at hpair
    obtain ⟨rfl, rfl⟩ := hpair
    have hlen := RoutePattern.length_of_capture? hcapture
    refine ⟨hroute, List.map_fst_zip (Nat.le_of_eq hlen.symm), ?_⟩
    rw [List.map_snd_zip (Nat.le_of_eq hlen)]
    exact hcapture
  · cases h

end Router

end RecordApi
