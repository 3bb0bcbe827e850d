import Persola.City.CityTools

/-!
# `City.CallOrder` — what the reads of a list of calls see

`run_parallel` postpones the reads of a list behind all its writes. A file that is written later is then read in
its later version. A listing shows the paths that are within its limit, so a later write can put a path into it,
change one in it or push one out; whether it does can be told from the paths.
-/

namespace Persola.City

open Agent (AgentId)
open Tools

section
variable {id : JobId} {db db' : Commons} {args : Kwargs} {path : String} {written : List String}

/-! ## What a listing shows -/

/-- The row a listing shows of a path. -/
def Commons.shown (db : Commons) (id : JobId) (args : Kwargs) (path : String) : Option WorkspaceArtifactModel :=
  if args.selects path ∧ (db.artifactsOf id).countP (·.path < path) < args.listLimit then
    db.getLatestByPath id path
  else none

theorem path_le_of_listing_le {a b : WorkspaceArtifactModel} (h : Commons.listing a ≤ Commons.listing b) :
    a.path ≤ b.path := by
  rcases Prod.Lex.toLex_le_toLex.mp h with hlt | ⟨heq, -⟩
  · exact le_of_lt hlt
  · exact le_of_eq heq

theorem version_le_of_listing_le {a b : WorkspaceArtifactModel} (h : Commons.listing a ≤ Commons.listing b)
    (hpath : a.path = b.path) : b.version ≤ a.version := by
  rcases Prod.Lex.toLex_le_toLex.mp h with hlt | ⟨-, hle⟩
  · exact absurd hpath (ne_of_lt hlt)
  · exact hle

theorem path_of_getLatestByPath {a : WorkspaceArtifactModel} (h : db.getLatestByPath id path = some a) :
    a ∈ db.artifactsOf id ∧ a.path = path := by
  have hmem := Select.mem_orderByDesc.mp (List.mem_of_head? h)
  exact ⟨List.mem_of_mem_filter hmem, of_decide_eq_true (List.mem_filter.mp hmem).2⟩

/-- The first row of a path in a listing is its latest. -/
theorem find?_listing (hunique : db.UniqueVersions id) (path : String) :
    (Select.orderBy Commons.listing (db.artifactsOf id)).find? (·.path = path) = db.getLatestByPath id path := by
  cases hfind : (Select.orderBy Commons.listing (db.artifactsOf id)).find? (·.path = path) with
  | none =>
      have hnone : (db.artifactsOf id).filter (·.path = path) = [] := by
        apply List.filter_eq_nil_iff.mpr
        intro a ha
        exact List.find?_eq_none.mp hfind a (Select.mem_orderBy.mpr ha)
      unfold Commons.getLatestByPath
      rw [hnone]
      rfl
  | some a =>
      obtain ⟨hpath, before, behind, hsplit, hbefore⟩ := List.find?_eq_some_iff_append.mp hfind
      have hpath : a.path = path := of_decide_eq_true hpath
      have hmem (b : WorkspaceArtifactModel) : b ∈ db.artifactsOf id ↔ b ∈ before ++ a :: behind := by
        rw [← hsplit, Select.mem_orderBy]
      have hsorted := Select.orderBy_pairwise Commons.listing (db.artifactsOf id)
      rw [hsplit] at hsorted
      symm
      apply Select.head?_orderByDesc
      · exact List.mem_filter.mpr ⟨(hmem a).mpr (List.mem_append_right _ List.mem_cons_self), decide_eq_true hpath⟩
      · intro b hb hne
        obtain ⟨hb, hbpath⟩ := List.mem_filter.mp hb
        have hbpath : b.path = path := of_decide_eq_true hbpath
        have hle : b.version ≤ a.version := by
          rcases List.mem_append.mp ((hmem b).mp hb) with hb' | hb'
          · exact absurd (decide_eq_true hbpath) (by simpa using hbefore b hb')
          · rcases List.mem_cons.mp hb' with rfl | hb'
            · exact le_rfl
            · have hpair := (List.pairwise_append.mp hsorted).2.1
              exact version_le_of_listing_le ((List.pairwise_cons.mp hpair).1 b hb') (hpath.trans hbpath.symm)
        refine lt_of_le_of_ne hle fun heq => hne ?_
        have ha := (hmem a).mpr (List.mem_append_right _ List.mem_cons_self)
        exact List.inj_on_of_nodup_map hunique hb ha (Prod.ext (hbpath.trans hpath.symm) heq)

/-- The loop over a listing keeps the first row of each path. -/
theorem getItem_keepLatest {arts : List WorkspaceArtifactModel} {latest : List (String × WorkspaceArtifactModel)}
    (h : arts.Pairwise fun a b => a.path = b.path → b.version ≤ a.version)
    (hlatest : ∀ prev, ∀ a ∈ arts, Py.getItem latest a.path = some prev → a.version ≤ prev.version)
    (path : String) :
    Py.getItem (arts.foldl keepLatest latest) path =
      (Py.getItem latest path).or (arts.find? (·.path = path)) := by
  induction arts generalizing latest with
  | nil => exact (Option.or_none ..).symm
  | cons a arts ih =>
      obtain ⟨ha, harts⟩ := List.pairwise_cons.mp h
      rw [List.foldl_cons, List.find?_cons]
      cases hprev : Py.getItem latest a.path with
      | some prev =>
          have hkeep : keepLatest latest a = latest := by
            unfold keepLatest
            rw [hprev]
            exact if_neg (not_lt.mpr (hlatest prev a List.mem_cons_self hprev))
          rw [hkeep, ih harts fun p b hb => hlatest p b (List.mem_cons_of_mem _ hb)]
          by_cases hpath : a.path = path
          · rw [← hpath, hprev]
            rfl
          · rw [decide_eq_false hpath]
      | none =>
          have hset : keepLatest latest a = Py.setItem latest a.path a := by
            unfold keepLatest
            rw [hprev]
          rw [hset, ih harts]
          · rw [Py.getItem_setItem]
            by_cases hpath : a.path = path
            · rw [if_pos hpath, decide_eq_true hpath, ← hpath, hprev]
              rfl
            · rw [if_neg hpath, decide_eq_false hpath]
          · intro prev b hb hget
            rw [Py.getItem_setItem] at hget
            split at hget
            · next heq =>
                cases hget
                exact ha b hb heq
            · exact hlatest prev b (List.mem_cons_of_mem _ hb) hget

/-- Rows of distinct paths, each under its own. -/
def ByPath (latest : List (String × WorkspaceArtifactModel)) : Prop :=
  (latest.map Prod.fst).Nodup ∧ ∀ e ∈ latest, e.1 = e.2.path

theorem byPath_keepLatest {latest : List (String × WorkspaceArtifactModel)} (h : ByPath latest)
    (a : WorkspaceArtifactModel) : ByPath (keepLatest latest a) := by
  have hset : ByPath (Py.setItem latest a.path a) := by
    refine ⟨(Py.keys_setItem h.1).1, fun e he => ?_⟩
    rcases Py.mem_setItem he with rfl | he
    · rfl
    · exact h.2 e he
  unfold keepLatest
  split
  · split
    · exact hset
    · exact h
  · exact hset

theorem byPath_latestByPath (arts : List WorkspaceArtifactModel) : ByPath (latestByPath arts) := by
  have hloop (latest : List (String × WorkspaceArtifactModel)) (h : ByPath latest) :
      ByPath (arts.foldl keepLatest latest) := by
    induction arts generalizing latest with
    | nil => exact h
    | cons a arts ih => exact ih _ (byPath_keepLatest h a)
  exact hloop [] ⟨List.nodup_nil, fun e he => nomatch he⟩

theorem mem_latestByPath {arts : List WorkspaceArtifactModel}
    (h : arts.Pairwise fun a b => a.path = b.path → b.version ≤ a.version) {a : WorkspaceArtifactModel} :
    a ∈ (latestByPath arts).map Prod.snd ↔ arts.find? (·.path = a.path) = some a := by
  obtain ⟨hnodup, hown⟩ := byPath_latestByPath arts
  have hempty : ∀ prev, ∀ b ∈ arts,
      Py.getItem ([] : List (String × WorkspaceArtifactModel)) b.path = some prev → b.version ≤ prev.version := by
    intro prev b _ hget
    cases hget
  have hget : Py.getItem (latestByPath arts) a.path = arts.find? (·.path = a.path) :=
    getItem_keepLatest h hempty a.path
  rw [← hget, List.mem_map]
  constructor
  · rintro ⟨e, he, rfl⟩
    rw [← hown e he]
    exact Py.getItem_of_mem hnodup he
  · intro hget
    obtain ⟨e, he, rfl⟩ := Option.map_eq_some_iff.mp hget
    exact ⟨e, List.mem_of_find?_eq_some he, rfl⟩

/-- The listed rows that are asked for hold what is shown. -/
theorem find?_listed (hunique : db.UniqueVersions id) (args : Kwargs) (path : String) :
    ((db.listArtifacts id args.listLimit).filter fun a => args.selects a.path).find? (·.path = path) =
      db.shown id args path := by
  have hpaths : (Select.orderBy Commons.listing (db.artifactsOf id)).Pairwise fun a b => a.path ≤ b.path :=
    (Select.orderBy_pairwise Commons.listing (db.artifactsOf id)).imp path_le_of_listing_le
  have hcount : (Select.orderBy Commons.listing (db.artifactsOf id)).countP (·.path < path) =
      (db.artifactsOf id).countP (·.path < path) :=
    (Select.orderBy_perm _ _).countP_eq _
  have hlisted : (db.listArtifacts id args.listLimit).find? (·.path = path) =
      if (db.artifactsOf id).countP (·.path < path) < args.listLimit then db.getLatestByPath id path else none := by
    rw [← find?_listing hunique, ← hcount]
    exact Select.find?_take hpaths args.listLimit path
  unfold Commons.shown
  rw [List.find?_filter, ite_and, ← hlisted]
  cases hselects : args.selects path with
  | true =>
      rw [if_pos rfl]
      congr 1
      funext a
      by_cases hpath : a.path = path
      · simp [hpath, hselects]
      · simp [hpath]
  | false =>
      rw [if_neg Bool.false_ne_true]
      apply List.find?_eq_none.mpr
      intro a _ ha
      obtain ⟨hsel, hpath⟩ := of_decide_eq_true ha
      rw [of_decide_eq_true hpath, hselects] at hsel
      cases hsel

theorem path_of_shown {a : WorkspaceArtifactModel} (h : db.shown id args path = some a) : a.path = path := by
  unfold Commons.shown at h
  split at h
  · exact (path_of_getLatestByPath h).2
  · cases h

/-- **What a listing says**: a line for each path it shows, in the order of the paths. -/
theorem workspaceList_spec (hjob : (db.getJob id).isSome) (hunique : db.UniqueVersions id) (args : Kwargs) :
    ∃ lines, workspaceList db id args = .ok lines ∧ lines.Pairwise (fun l l' => l.1 < l'.1) ∧
      ∀ line, line ∈ lines ↔ ∃ a, db.shown id args line.1 = some a ∧ a.line = line := by
  obtain ⟨job, hjob⟩ := Option.isSome_iff_exists.mp hjob
  let arts := (db.listArtifacts id args.listLimit).filter fun a => args.selects a.path
  have hversions : arts.Pairwise fun a b => a.path = b.path → b.version ≤ a.version := by
    have hsorted : (db.listArtifacts id args.listLimit).Pairwise fun a b => Commons.listing a ≤ Commons.listing b :=
      (Select.orderBy_pairwise Commons.listing (db.artifactsOf id)).take
    exact (hsorted.filter _).imp version_le_of_listing_le
  refine ⟨(Select.orderBy (·.path) ((latestByPath arts).map Prod.snd)).map (·.line), ?_, ?_, fun line => ?_⟩
  · unfold workspaceList
    rw [hjob]
  · have hnodup : ((Select.orderBy (·.path) ((latestByPath arts).map Prod.snd)).map (·.path)).Nodup := by
      rw [((Select.orderBy_perm _ _).map _).nodup_iff, List.map_map]
      obtain ⟨hkeys, hown⟩ := byPath_latestByPath arts
      rwa [List.map_congr_left hown] at hkeys
    rw [List.pairwise_map]
    have hle := Select.orderBy_pairwise (·.path) ((latestByPath arts).map Prod.snd)
    exact (hle.and (List.pairwise_map.mp hnodup)).imp fun h => lt_of_le_of_ne h.1 h.2
  · rw [List.mem_map]
    constructor
    · rintro ⟨a, ha, rfl⟩
      have hfound := (mem_latestByPath hversions).mp (Select.mem_orderBy.mp ha)
      exact ⟨a, (find?_listed hunique args a.path).symm.trans hfound, rfl⟩
    · rintro ⟨a, ha, rfl⟩
      refine ⟨a, Select.mem_orderBy.mpr ((mem_latestByPath hversions).mpr ?_), rfl⟩
      exact (find?_listed hunique args a.path).trans ha

/-- Two listings are the same iff they show the same of every path. -/
theorem workspaceList_eq_iff (hjob : (db.getJob id).isSome) (hjob' : (db'.getJob id).isSome)
    (hunique : db.UniqueVersions id) (hunique' : db'.UniqueVersions id) :
    workspaceList db id args = workspaceList db' id args ↔
      ∀ path, (db.shown id args path).map (·.line) = (db'.shown id args path).map (·.line) := by
  obtain ⟨lines, hlines, hsorted, hmem⟩ := workspaceList_spec hjob hunique args
  obtain ⟨lines', hlines', hsorted', hmem'⟩ := workspaceList_spec hjob' hunique' args
  -- a line is what is shown of its path
  have hline {db : Commons} {line : String × ℕ × ℕ} :
      (∃ a, db.shown id args line.1 = some a ∧ a.line = line) ↔
        (db.shown id args line.1).map (·.line) = some line :=
    Option.map_eq_some_iff.symm
  rw [hlines, hlines', Except.ok.injEq]
  constructor
  · rintro rfl path
    have hsame (line : String × ℕ × ℕ) : (db.shown id args line.1).map (·.line) = some line ↔
        (db'.shown id args line.1).map (·.line) = some line := by
      rw [← hline, ← hline, ← hmem, ← hmem']
    apply Option.ext
    intro line
    constructor
    · intro h
      obtain ⟨a, ha, rfl⟩ := Option.map_eq_some_iff.mp h
      have hpath : a.line.1 = path := path_of_shown ha
      have h := (hsame a.line).mp (hpath.symm ▸ h)
      exact hpath ▸ h
    · intro h
      obtain ⟨a, ha, rfl⟩ := Option.map_eq_some_iff.mp h
      have hpath : a.line.1 = path := path_of_shown ha
      have h := (hsame a.line).mpr (hpath.symm ▸ h)
      exact hpath ▸ h
  · intro h
    have hperm : lines.Perm lines' := by
      apply (List.perm_ext_iff_of_nodup _ _).mpr
      · intro line
        rw [hmem, hmem', hline, hline, h]
      · exact hsorted.imp fun hlt heq => absurd (congrArg Prod.fst heq) hlt.ne
      · exact hsorted'.imp fun hlt heq => absurd (congrArg Prod.fst heq) hlt.ne
    refine hperm.eq_of_pairwise ?_ hsorted hsorted'
    intro l l' _ _ hlt hgt
    exact absurd hlt hgt.not_gt

/-! ## What writes change in it -/

/-- A path is within the limit of a listing of some paths. -/
def Kwargs.Within (args : Kwargs) (paths : List String) (path : String) : Prop :=
  paths.countP (· < path) < args.listLimit

instance (args : Kwargs) (paths : List String) (path : String) : Decidable (args.Within paths path) :=
  inferInstanceAs (Decidable (_ < _))

/-- Writes leave a listing as it is: none of them is to a path that is asked for and within the limit after them
    all, and they push no such path out. -/
def Kwargs.Untouched (args : Kwargs) (paths written : List String) : Prop :=
  (∀ path ∈ written, args.selects path = true → ¬ args.Within (paths ++ written) path) ∧
    ∀ path ∈ paths, args.selects path = true → args.Within paths path → args.Within (paths ++ written) path

theorem within_paths : (db.artifactsOf id).countP (·.path < path) < args.listLimit ↔
    args.Within ((db.artifactsOf id).map (·.path)) path := by
  unfold Kwargs.Within
  rw [List.countP_map]
  rfl

theorem Kwargs.Within.of_append {paths : List String} (h : args.Within (paths ++ written) path) :
    args.Within paths path := by
  unfold Kwargs.Within at h ⊢
  rw [List.countP_append] at h
  exact lt_of_le_of_lt (Nat.le_add_right _ _) h

/-- A path that has a row has a latest one. -/
theorem exists_getLatestByPath (h : path ∈ (db.artifactsOf id).map (·.path)) :
    ∃ a, db.getLatestByPath id path = some a := by
  obtain ⟨a, ha, hpath⟩ := List.mem_map.mp h
  cases hlatest : db.getLatestByPath id path with
  | some b => exact ⟨b, rfl⟩
  | none =>
      have hnone := List.head?_eq_none_iff.mp hlatest
      have hmem : a ∈ Select.orderByDesc (·.version) ((db.artifactsOf id).filter (·.path = path)) :=
        Select.mem_orderByDesc.mpr (List.mem_filter.mpr ⟨ha, decide_eq_true hpath⟩)
      rw [hnone] at hmem
      cases hmem

/-- A path that has been written has a new latest version. -/
theorem line_ne_of_written (hgrown : Grown id db db' written) (hpath : path ∈ written) :
    (db.getLatestByPath id path).map (·.line) ≠ (db'.getLatestByPath id path).map (·.line) := by
  obtain ⟨a, ha, hlt⟩ := hgrown.newer path hpath
  rw [ha]
  intro heq
  obtain ⟨b, hb, hline⟩ := Option.map_eq_some_iff.mp heq
  have hversion : b.version = a.version := congrArg (fun line => line.2.1) hline
  have hlatest : db.latestVersion id path = b.version := by
    unfold Commons.latestVersion
    rw [hb]
    rfl
  omega

/-- **What writes change in what is shown of a path.** -/
theorem shown_eq_iff (hgrown : Grown id db db' written) (hselects : args.selects path = true) :
    (db.shown id args path).map (·.line) = (db'.shown id args path).map (·.line) ↔
      (path ∈ written → ¬ args.Within ((db.artifactsOf id).map (·.path) ++ written) path) ∧
        (path ∈ (db.artifactsOf id).map (·.path) → args.Within ((db.artifactsOf id).map (·.path)) path →
          args.Within ((db.artifactsOf id).map (·.path) ++ written) path) := by
  have hshown (db : Commons) : db.shown id args path =
      if args.Within ((db.artifactsOf id).map (·.path)) path then db.getLatestByPath id path else none := by
    unfold Commons.shown
    simp only [hselects, true_and, within_paths]
  rw [hshown, hshown, hgrown.paths]
  by_cases hafter : args.Within ((db.artifactsOf id).map (·.path) ++ written) path
  · rw [if_pos hafter, if_pos hafter.of_append]
    constructor
    · intro heq
      exact ⟨fun hpath => absurd heq (line_ne_of_written hgrown hpath), fun _ _ => hafter⟩
    · rintro ⟨hnot, -⟩
      rw [hgrown.same path fun hpath => hnot hpath hafter]
  · rw [if_neg hafter]
    constructor
    · intro heq
      refine ⟨fun _ => hafter, fun hpath hbefore => ?_⟩
      obtain ⟨a, ha⟩ := exists_getLatestByPath hpath
      rw [if_pos hbefore, ha] at heq
      cases heq
    · rintro ⟨-, hkept⟩
      by_cases hbefore : args.Within ((db.artifactsOf id).map (·.path)) path
      · cases hlatest : db.getLatestByPath id path with
        | none => rw [ite_self]
        | some a =>
            obtain ⟨ha, hpath⟩ := path_of_getLatestByPath hlatest
            exact absurd (hkept (List.mem_map.mpr ⟨a, ha, hpath⟩) hbefore) hafter
      · rw [if_neg hbefore]

/-- **When writes leave a listing as it is.** -/
theorem workspaceList_same_iff (hgrown : Grown id db db' written) (hjob : (db.getJob id).isSome)
    (hunique : db.UniqueVersions id) :
    workspaceList db id args = workspaceList db' id args ↔
      args.Untouched ((db.artifactsOf id).map (·.path)) written := by
  rw [workspaceList_eq_iff hjob (hgrown.job hjob) hunique (hgrown.unique hunique)]
  constructor
  · intro h
    refine ⟨fun path hpath hselects => ?_, fun path hpath hselects => ?_⟩
    · exact ((shown_eq_iff hgrown hselects).mp (h path)).1 hpath
    · exact ((shown_eq_iff hgrown hselects).mp (h path)).2 hpath
  · rintro ⟨hnot, hkept⟩ path
    cases hselects : args.selects path with
    | true =>
        exact (shown_eq_iff hgrown hselects).mpr
          ⟨fun h => hnot path h hselects, fun h => hkept path h hselects⟩
    | false => simp [Commons.shown, hselects]

/-! ## What writes change in a read -/

/-- **When writes leave what is read as it is.** -/
theorem readHandler_same_iff {s t : Session Commons} (hgrown : Grown id s.working t.working written)
    (hjob : (s.working.getJob id).isSome) :
    (readHandler id args s).1 = (readHandler id args t).1 ↔
      ∀ path, sanitizeWorkspacePath (args.path.getD "") = .ok path → path ∉ written := by
  obtain ⟨job, hjob⟩ := Option.isSome_iff_exists.mp hjob
  obtain ⟨job', hjob'⟩ := Option.isSome_iff_exists.mp (hgrown.job (by rw [hjob]; rfl))
  unfold readHandler workspaceRead
  rw [hjob, hjob']
  dsimp only
  cases hpath : sanitizeWorkspacePath (args.path.getD "") with
  | error e => exact iff_of_true rfl fun path h => nomatch h
  | ok path =>
      show (Except.ok ((s.working.getLatestByPath id path).elim (.notFound path) .found) :
        Except String CityResult) =
        .ok ((t.working.getLatestByPath id path).elim (.notFound path) .found) ↔ _
      have htold {latest latest' : Option WorkspaceArtifactModel} :
          (Except.ok (latest.elim (.notFound path) .found) : Except String CityResult) =
            .ok (latest'.elim (.notFound path) .found) ↔ latest = latest' := by
        cases latest <;> cases latest' <;> simp
      rw [htold]
      constructor
      · rintro heq path' hpath' hmem
        obtain rfl := Except.ok.inj hpath'
        exact line_ne_of_written hgrown hmem (congrArg _ heq)
      · intro hnot
        exact (hgrown.same path (hnot path rfl)).symm

/-! ## A list of calls -/

/-- The reads of a list mind no call from their place on. -/
def Undisturbed (paths : List String) (calls : List (Tools.Call Kwargs)) : Prop :=
  ∀ i call, calls[i]? = some call →
    (call.name = "workspace_read" → ∀ path, sanitizeWorkspacePath (call.args.path.getD "") = .ok path →
      path ∉ (calls.drop i).flatMap writtenBy) ∧
    (call.name = "workspace_list" →
      call.args.Untouched (paths ++ (calls.take i).flatMap writtenBy) ((calls.drop i).flatMap writtenBy))

variable {agentId : Option AgentId} {registry : ToolRegistry CityHandler} {calls : List (Tools.Call Kwargs)}
  {call : Tools.Call Kwargs} {s : Session Commons}

/-- The tools of the commons that may run beside others are the two that read. -/
theorem serial_eq_false_iff (hname : call.name ∈ cityTools) :
    (registerCityTools id agentId registry).serial call.name = false ↔
      call.name = "workspace_read" ∨ call.name = "workspace_list" := by
  obtain ⟨hwrite, hread, hlist, hpython, hviz⟩ := get_cityTools id agentId registry
  unfold ToolRegistry.serial
  simp only [cityTools, List.mem_cons, List.not_mem_nil, or_false] at hname
  rcases hname with hname | hname | hname | hname | hname
  · rw [hname, hwrite]
    simp
  · rw [hname, hread]
    simp
  · rw [hname, hlist]
    simp
  · rw [hname, hpython]
    simp
  · rw [hname, hviz]
    simp

theorem run_read (hname : call.name = "workspace_read") (s : Session Commons) :
    (registerCityTools id agentId registry).run call s = ((readHandler id call.args s).1.map some, s) := by
  unfold ToolRegistry.run
  rw [hname, (get_cityTools id agentId registry).2.1]
  rfl

theorem run_list (hname : call.name = "workspace_list") (s : Session Commons) :
    (registerCityTools id agentId registry).run call s = ((listHandler id call.args s).1.map some, s) := by
  unfold ToolRegistry.run
  rw [hname, (get_cityTools id agentId registry).2.2.1]
  rfl

theorem map_some_inj {γ : Type*} {x y : Except String γ} : x.map some = y.map some ↔ x = y := by
  cases x <;> cases y <;> simp [Except.map]

theorem map_some_error {γ : Type*} {x : Except String γ} {e : String} : x.map some = .error e ↔ x = .error e := by
  cases x <;> simp [Except.map]

/-- A read raises for its path only. -/
theorem readHandler_raises_iff (hjob : (s.working.getJob id).isSome) (e : String) :
    (readHandler id args s).1 = .error e ↔ sanitizeWorkspacePath (args.path.getD "") = .error e := by
  obtain ⟨job, hjob⟩ := Option.isSome_iff_exists.mp hjob
  unfold readHandler workspaceRead
  rw [hjob]
  dsimp only
  cases sanitizeWorkspacePath (args.path.getD "") with
  | error e' =>
      show (Except.error e' : Except String CityResult) = .error e ↔ _
      rw [Except.error.injEq, Except.error.injEq]
  | ok path => exact iff_of_false (fun h => nomatch h) (fun h => nomatch h)

theorem listHandler_ok (hjob : (s.working.getJob id).isSome) (e : String) :
    (listHandler id args s).1 ≠ .error e := by
  obtain ⟨job, hjob⟩ := Option.isSome_iff_exists.mp hjob
  unfold listHandler workspaceList
  rw [hjob]
  intro h
  cases h

/-- A list of city calls none of which raises can be run by `run_parallel`. -/
theorem postponable (hjob : (s.working.getJob id).isSome) (hnames : ∀ call ∈ calls, call.name ∈ cityTools)
    (hok : ∀ answer ∈ ((registerCityTools id agentId registry).runEach calls s).1, answer.isOk) :
    (registerCityTools id agentId registry).Postponable calls s := by
  have hhere (i : ℕ) (call : Tools.Call Kwargs) (hcall : calls[i]? = some call) (e : String) :
      ((registerCityTools id agentId registry).run call
        ((registerCityTools id agentId registry).after (calls.take i) s)).1 ≠ .error e := by
    intro heq
    have hanswer : ((registerCityTools id agentId registry).runEach calls s).1[i]? = _ :=
      ToolRegistry.getElem?_runEach
    rw [hcall, Option.map_some, heq] at hanswer
    cases hok _ (List.mem_of_getElem? hanswer)
  refine ⟨hhere, fun call hmem hserial t => ?_, fun call hmem hserial e heq => ?_⟩
  · rcases (serial_eq_false_iff (hnames call hmem)).mp hserial with hname | hname
    · rw [run_read hname]
    · rw [run_list hname]
  · have hjob' := (after_grown agentId registry hjob hnames).job hjob
    rcases (serial_eq_false_iff (hnames call hmem)).mp hserial with hname | hname
    · rw [run_read hname, map_some_error, readHandler_raises_iff hjob'] at heq
      -- it would have raised in its place
      obtain ⟨i, hcall⟩ := List.mem_iff_getElem?.mp hmem
      apply hhere i call hcall e
      have htaken : ∀ c ∈ calls.take i, c.name ∈ cityTools := fun c hc => hnames c (List.mem_of_mem_take hc)
      have hjob'' := (after_grown agentId registry hjob htaken).job hjob
      rw [run_read hname, map_some_error, readHandler_raises_iff hjob'']
      exact heq
    · rw [run_list hname, map_some_error] at heq
      exact listHandler_ok hjob' e heq

theorem after_take_drop (i : ℕ) : (registerCityTools id agentId registry).after calls s =
    (registerCityTools id agentId registry).after (calls.drop i)
      ((registerCityTools id agentId registry).after (calls.take i) s) := by
  unfold ToolRegistry.after
  rw [← List.foldl_append, List.take_append_drop]

/-- **`run_parallel` answers what the calls answer one after another exactly if no read minds a later write.** -/
theorem cityCalls_inOrder_iff {order : List ℕ} (hjob : (s.working.getJob id).isSome)
    (hunique : s.working.UniqueVersions id) (hnames : ∀ call ∈ calls, call.name ∈ cityTools)
    (hok : ∀ answer ∈ ((registerCityTools id agentId registry).runEach calls s).1, answer.isOk)
    (horder : order.Perm ((registerCityTools id agentId registry).parallelIdx calls)) :
    (registerCityTools id agentId registry).AnswersInOrder order calls s ↔
      Undisturbed ((s.working.artifactsOf id).map (·.path)) calls := by
  rw [ToolRegistry.answersInOrder_iff (postponable hjob hnames hok) horder]
  apply forall_congr'
  intro i
  apply forall_congr'
  intro call
  apply imp_congr_right
  intro hcall
  have hname := hnames call (List.mem_of_getElem? hcall)
  have htaken : ∀ c ∈ calls.take i, c.name ∈ cityTools := fun c hc => hnames c (List.mem_of_mem_take hc)
  have hdropped : ∀ c ∈ calls.drop i, c.name ∈ cityTools := fun c hc => hnames c (List.mem_of_mem_drop hc)
  have hbefore := after_grown agentId registry hjob htaken
  have hlater := after_grown agentId registry (hbefore.job hjob) hdropped
  rw [← after_take_drop] at hlater
  have hread : call.name = "workspace_read" → (((registerCityTools id agentId registry).run call
      ((registerCityTools id agentId registry).after calls s)).1 =
        ((registerCityTools id agentId registry).run call
          ((registerCityTools id agentId registry).after (calls.take i) s)).1 ↔
      ∀ path, sanitizeWorkspacePath (call.args.path.getD "") = .ok path →
        path ∉ (calls.drop i).flatMap writtenBy) := by
    intro hname
    rw [run_read hname, run_read hname, map_some_inj, eq_comm]
    exact readHandler_same_iff hlater (hbefore.job hjob)
  have hlist : call.name = "workspace_list" → (((registerCityTools id agentId registry).run call
      ((registerCityTools id agentId registry).after calls s)).1 =
        ((registerCityTools id agentId registry).run call
          ((registerCityTools id agentId registry).after (calls.take i) s)).1 ↔
      call.args.Untouched ((s.working.artifactsOf id).map (·.path) ++ (calls.take i).flatMap writtenBy)
        ((calls.drop i).flatMap writtenBy)) := by
    intro hname
    rw [run_list hname, run_list hname, map_some_inj, eq_comm, ← hbefore.paths,
      ← workspaceList_same_iff hlater (hbefore.job hjob) (hbefore.unique hunique)]
    unfold listHandler
    cases workspaceList _ id call.args <;> cases workspaceList _ id call.args <;> simp [Except.map]
  rw [serial_eq_false_iff hname]
  constructor
  · intro h
    exact ⟨fun hname => (hread hname).mp (h (.inl hname)), fun hname => (hlist hname).mp (h (.inr hname))⟩
  · rintro ⟨hreads, hlists⟩ (hname | hname)
    · exact (hread hname).mpr (hreads hname)
    · exact (hlist hname).mpr (hlists hname)

end

/-- A file that is written and then read. -/
def writeThenRead : List (Tools.Call Kwargs) :=
  [⟨"workspace_write", { path := some "plan.md", content := some "v1" }⟩,
    ⟨"workspace_read", { path := some "plan.md" }⟩]

theorem inOrder_writeThenRead : (registerCityTools 1 none []).AnswersInOrder [1] writeThenRead
    (Session.start freshJob) := by
  have hunique : (Session.start freshJob).working.UniqueVersions 1 := List.nodup_nil
  apply (cityCalls_inOrder_iff rfl hunique (by decide) (by decide +kernel) (by decide +kernel)).mpr
  intro i call hcall
  match i, hcall with
  | 0, rfl => exact ⟨fun h => absurd h (by decide), fun h => absurd h (by decide)⟩
  | 1, rfl => exact ⟨fun _ _ _ => List.not_mem_nil, fun h => absurd h (by decide)⟩

/-- **A read that stands before a write answers what is written after it.** -/
theorem read_sees_later_write : ¬ ∀ (id : JobId) (agentId : Option AgentId) (registry : ToolRegistry CityHandler)
    (order : List ℕ) (calls : List (Tools.Call Kwargs)) (s : Session Commons), (s.working.getJob id).isSome →
      s.working.UniqueVersions id → (∀ call ∈ calls, call.name ∈ cityTools) →
      (∀ answer ∈ ((registerCityTools id agentId registry).runEach calls s).1, answer.isOk) →
      order.Perm ((registerCityTools id agentId registry).parallelIdx calls) →
      (registerCityTools id agentId registry).AnswersInOrder order calls s := by
  intro hall
  have hunique : (Session.start freshJob).working.UniqueVersions 1 := List.nodup_nil
  have hinOrder := hall 1 none [] [0] writeThenRead.reverse (Session.start freshJob) rfl hunique (by decide)
    (by decide +kernel) (by decide +kernel)
  have hdiffers : ¬ (registerCityTools 1 none []).AnswersInOrder [0] writeThenRead.reverse
      (Session.start freshJob) := by
    unfold ToolRegistry.AnswersInOrder
    decide +kernel
  exact hdiffers hinOrder

end Persola.City
