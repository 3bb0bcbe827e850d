import Persola.Lib.Numbering
import Persola.City.CallOrder

/-!
# `City.Listing` — what a listing says of a job's files

`workspace_list` reads at most 200 rows of the job in the order of path and version, and only then reduces them to
one per path: each rewrite of a path takes a row away from the paths behind it. After any writes a listing has
every path exactly if none of them has 200 writes before it; what it says of a path is what was written there last.
-/

namespace Persola.City

open Agent (AgentId)

/-! ## Histories of writes -/

/-- A call of `workspace_write`. -/
structure ToolWrite where
  agentId : Option AgentId
  path : String
  content : Option String

/-- The session after some calls on a job. -/
def afterWrites (id : JobId) (s : Session Commons) (calls : List ToolWrite) : Session Commons :=
  calls.foldl (fun s call => (workspaceWrite s id call.agentId call.path call.content).2) s

/-- Path and content that a call stores, if it stores any. -/
def ToolWrite.stores (call : ToolWrite) : Option (String × String) :=
  match sanitizeWorkspacePath call.path, call.content with
  | .ok rel, some content => some (rel, content)
  | _, _ => none

/-- Paths and contents that some calls store, in the order of the calls. -/
def storedBy (calls : List ToolWrite) : List (String × String) := calls.filterMap ToolWrite.stores

/-- The writes to a path. -/
def writesTo (stored : List (String × String)) (path : String) : List (String × String) :=
  stored.filter (·.1 = path)

/-- Version and size of a file: how often it was written, and how many bytes the last time. -/
def fileAfter (stored : List (String × String)) (path : String) : Option (ℕ × ℕ) :=
  (writesTo stored path).getLast?.map fun w => ((writesTo stored path).length, w.2.utf8ByteSize)

/-- The artifacts of a job are those of some writes. -/
structure Commons.Holds (db : Commons) (id : JobId) (stored : List (String × String)) : Prop where
  job : (db.getJob id).isSome
  files : (db.artifactsOf id).map (fun a => (a.path, a.sizeBytes)) = stored.map fun w => (w.1, w.2.utf8ByteSize)
  numbered : ∀ path, Numbered (·.version) ((db.artifactsOf id).filter (·.path = path))

section
variable {db : Commons} {s : Session Commons} {id : JobId} {stored : List (String × String)} {path : String}

/-- Path and size of the rows of a path. -/
theorem Commons.Holds.filesOf (h : db.Holds id stored) (path : String) :
    ((db.artifactsOf id).filter (·.path = path)).map (fun a => (a.path, a.sizeBytes)) =
      (writesTo stored path).map fun w => (w.1, w.2.utf8ByteSize) := by
  have hfiles := congrArg (List.filter fun p : String × ℕ => p.1 = path) h.files
  rwa [List.filter_map, List.filter_map] at hfiles

theorem Commons.Holds.paths (h : db.Holds id stored) : (db.artifactsOf id).map (·.path) = stored.map (·.1) := by
  have hpaths := congrArg (List.map Prod.fst) h.files
  rwa [List.map_map, List.map_map] at hpaths

/-- **The latest version of a path** is the number of its writes, with the size of the last. -/
theorem Commons.Holds.latest (h : db.Holds id stored) (path : String) :
    (db.getLatestByPath id path).map (fun a => (a.version, a.sizeBytes)) = fileAfter stored path := by
  have hnumbered := h.numbered path
  have hfiles := h.filesOf path
  have hlength := congrArg List.length hfiles
  have hlast := congrArg List.getLast? hfiles
  rw [List.length_map, List.length_map] at hlength
  rw [List.getLast?_map, List.getLast?_map] at hlast
  have hversion := hnumbered.num_getLast?
  unfold Commons.getLatestByPath fileAfter
  rw [hnumbered.head?_orderByDesc, ← hlength]
  generalize (db.artifactsOf id).filter (·.path = path) = rows at *
  cases hrow : rows.getLast? with
  | none =>
      rw [hrow] at hlast
      rw [Option.map_eq_none_iff.mp hlast.symm]
      rfl
  | some a =>
      rw [hrow] at hlast hversion
      obtain ⟨w, hw, heq⟩ := Option.map_eq_some_iff.mp hlast.symm
      have hsize : w.2.utf8ByteSize = a.sizeBytes := congrArg Prod.snd heq
      have hversion : a.version = rows.length := hversion
      rw [hw, Option.map_some, Option.map_some, hsize, hversion]

/-- Rows that are related under each key are related wherever they share one. -/
theorem pairwise_of_keyed {α κ : Type*} [DecidableEq κ] {key : α → κ} {R : α → α → Prop} {rows : List α}
    (h : ∀ k, (rows.filter (key · = k)).Pairwise R) : rows.Pairwise fun a b => key a = key b → R a b := by
  induction rows with
  | nil => exact .nil
  | cons a rows ih =>
      refine List.pairwise_cons.mpr ⟨fun b hb heq => ?_, ih fun k => ?_⟩
      · have ha := h (key a)
        rw [List.filter_cons, if_pos (decide_eq_true rfl)] at ha
        exact (List.pairwise_cons.mp ha).1 b (List.mem_filter.mpr ⟨hb, decide_eq_true heq.symm⟩)
      · exact (h k).sublist ((List.sublist_cons_self a rows).filter _)

/-- No two rows of a path have one version. -/
theorem Commons.Holds.unique (h : db.Holds id stored) : db.UniqueVersions id := by
  have hversions : (db.artifactsOf id).Pairwise fun a b => a.path = b.path → a.version < b.version :=
    pairwise_of_keyed fun path => (h.numbered path).pairwise
  unfold Commons.UniqueVersions
  rw [List.Nodup, List.pairwise_map]
  refine hversions.imp fun hlt heq => ?_
  obtain ⟨hpath, hversion⟩ := Prod.mk.inj heq
  exact absurd hversion (hlt hpath).ne

/-- **A write stores its content** under the next version of its path. -/
theorem Commons.Holds.recordArtifact {job : CityJobModel} (hjob : s.working.getJob id = some job)
    (h : s.working.Holds id stored) (agentId : Option AgentId) (path content : String) :
    (recordArtifact s job path (some content) agentId).working.Holds id (stored ++ [(path, content)]) := by
  obtain rfl : job.id = id := Table.key_of_find? hjob
  refine ⟨?_, ?_, fun other => ?_⟩
  · show (s.working.getJob job.id).isSome
    rw [hjob]
    rfl
  · rw [artifactsOf_recordArtifact, List.map_append, List.map_append, h.files]
    rfl
  · rw [artifactsOf_recordArtifact, List.filter_append]
    by_cases heq : path = other
    · subst heq
      rw [List.filter_cons, if_pos (decide_eq_true rfl), List.filter_nil]
      refine (h.numbered path).snoc ?_
      show s.working.latestVersion job.id path + 1 = _
      unfold Commons.latestVersion Commons.getLatestByPath
      rw [(h.numbered path).head?_orderByDesc, (h.numbered path).num_getLast?]
    · rw [List.filter_cons, if_neg (by simpa using heq), List.filter_nil, List.append_nil]
      exact h.numbered other

/-- **Any writes on a job without files** leave what they stored. -/
theorem holds_afterWrites (calls : List ToolWrite) (h : s.working.Holds id stored) :
    (afterWrites id s calls).working.Holds id (stored ++ storedBy calls) := by
  induction calls generalizing s stored with
  | nil => rwa [storedBy, List.filterMap_nil, List.append_nil]
  | cons call calls ih =>
      obtain ⟨job, hjob⟩ := Option.isSome_iff_exists.mp h.job
      have hstep : (workspaceWrite s id call.agentId call.path call.content).2.working.Holds id
          (stored ++ call.stores.toList) := by
        unfold workspaceWrite ToolWrite.stores
        rw [hjob]
        dsimp only
        cases hpath : sanitizeWorkspacePath call.path with
        | error e => simpa using h
        | ok rel =>
            cases call.content with
            | none => simpa using h
            | some content => exact h.recordArtifact hjob call.agentId rel content
      have hrest := ih hstep
      rw [List.append_assoc] at hrest
      have hsplit : storedBy (call :: calls) = call.stores.toList ++ storedBy calls := by
        unfold storedBy
        rw [List.filterMap_cons]
        cases call.stores <;> rfl
      rw [hsplit]
      exact hrest

/-! ## Complete listings -/

/-- **A listing is complete**: it has every path that was written once, in sorted order, with the version and the
size of the artifact that `workspace_read` returns for it. -/
def Commons.ListsAll (db : Commons) (id : JobId) (stored : List (String × String)) : Prop :=
  ∃ lines, workspaceList db id {} = .ok lines ∧ lines.Pairwise (fun l l' => l.1 < l'.1) ∧
    (∀ path, path ∈ lines.map Prod.fst ↔ path ∈ stored.map Prod.fst) ∧
      ∀ line ∈ lines, ∃ a, workspaceRead db id line.1 = .ok (some a) ∧ line.2 = (a.version, a.sizeBytes)

/-- The writes leave a path in the listing, and its file where `workspace_read` looks for it: fewer than 200 of
them went to lesser paths, and the path as `workspace_read` sanitizes it has a file of this version and size. -/
structure Findable (stored : List (String × String)) (path : String) : Prop where
  listed : (stored.map Prod.fst).countP (· < path) < 200
  read : ∃ rel, sanitizeWorkspacePath path = .ok rel ∧ fileAfter stored rel = fileAfter stored path

/-- A path that is its own sanitized path is found if it is listed. -/
theorem findable_of_normal (hnormal : NormalPath path) (h : (stored.map Prod.fst).countP (· < path) < 200) :
    Findable stored path := ⟨h, path, hnormal, rfl⟩

theorem exists_fileAfter (h : path ∈ stored.map Prod.fst) : ∃ file, fileAfter stored path = some file := by
  obtain ⟨w, hw, rfl⟩ := List.mem_map.mp h
  have hmem : w ∈ writesTo stored w.1 := List.mem_filter.mpr ⟨hw, decide_eq_true rfl⟩
  unfold fileAfter
  cases hlast : (writesTo stored w.1).getLast? with
  | none =>
      rw [List.getLast?_eq_none_iff.mp hlast] at hmem
      cases hmem
  | some last => exact ⟨_, rfl⟩

/-- What a listing without arguments shows of a path. -/
theorem Commons.Holds.shown (h : db.Holds id stored) (path : String) : db.shown id {} path =
    if (stored.map Prod.fst).countP (· < path) < 200 then db.getLatestByPath id path else none := by
  have hcount : (db.artifactsOf id).countP (·.path < path) = (stored.map Prod.fst).countP (· < path) := by
    rw [← h.paths, List.countP_map]
    rfl
  unfold Commons.shown
  rw [hcount]
  exact if_congr (and_iff_right rfl) rfl rfl

/-- `workspace_read` of a path answers for the path it is sanitized to. -/
theorem Commons.Holds.read_iff (h : db.Holds id stored) (file : ℕ × ℕ) :
    (∃ a, workspaceRead db id path = .ok (some a) ∧ file = (a.version, a.sizeBytes)) ↔
      ∃ rel, sanitizeWorkspacePath path = .ok rel ∧ fileAfter stored rel = some file := by
  obtain ⟨job, hjob⟩ := Option.isSome_iff_exists.mp h.job
  unfold workspaceRead
  rw [hjob]
  dsimp only
  cases hpath : sanitizeWorkspacePath path with
  | error e =>
      refine iff_of_false ?_ ?_
      · rintro ⟨a, ha, -⟩
        cases ha
      · rintro ⟨rel, hrel, -⟩
        cases hrel
  | ok rel =>
      constructor
      · rintro ⟨a, ha, rfl⟩
        have ha : db.getLatestByPath id rel = some a := Except.ok.inj ha
        exact ⟨rel, rfl, by rw [← h.latest rel, ha]; rfl⟩
      · rintro ⟨rel', hrel, hfile⟩
        obtain rfl := Except.ok.inj hrel
        rw [← h.latest rel, Option.map_eq_some_iff] at hfile
        obtain ⟨a, ha, rfl⟩ := hfile
        exact ⟨a, congrArg Except.ok ha, rfl⟩

/-- **A listing is complete exactly if every path written can be found.** -/
theorem Commons.Holds.listsAll_iff (h : db.Holds id stored) :
    db.ListsAll id stored ↔ ∀ path ∈ stored.map Prod.fst, Findable stored path := by
  obtain ⟨lines, hlines, hsorted, hmem⟩ := workspaceList_spec h.job h.unique {}
  constructor
  · rintro ⟨lines', hlines', -, hpaths, hread⟩ path hpath
    obtain rfl := Except.ok.inj (hlines.symm.trans hlines')
    obtain ⟨line, hline, rfl⟩ := List.mem_map.mp ((hpaths path).mpr hpath)
    obtain ⟨a, ha, rfl⟩ := (hmem line).mp hline
    rw [h.shown] at ha
    split at ha
    · next hlisted =>
        obtain ⟨rel, hrel, hfile⟩ := (h.read_iff _).mp (hread a.line hline)
        refine ⟨hlisted, rel, hrel, hfile.trans ?_⟩
        rw [← h.latest, ha]
        rfl
    · cases ha
  · intro hall
    have hlisted (path : String) : path ∈ lines.map Prod.fst ↔ path ∈ stored.map Prod.fst := by
      constructor
      · intro hpath
        obtain ⟨line, hline, rfl⟩ := List.mem_map.mp hpath
        obtain ⟨a, ha, rfl⟩ := (hmem line).mp hline
        rw [h.shown] at ha
        split at ha
        · obtain ⟨hrow, -⟩ := path_of_getLatestByPath ha
          rw [← h.paths]
          exact List.mem_map_of_mem hrow
        · cases ha
      · intro hpath
        obtain ⟨file, hfile⟩ := exists_fileAfter hpath
        rw [← h.latest, Option.map_eq_some_iff] at hfile
        obtain ⟨a, ha, -⟩ := hfile
        have hrow : a.path = path := (path_of_getLatestByPath ha).2
        refine List.mem_map.mpr ⟨a.line, (hmem a.line).mpr ⟨a, ?_, rfl⟩, hrow⟩
        show db.shown id {} a.path = some a
        rw [hrow, h.shown, if_pos (hall path hpath).listed, ha]
    refine ⟨lines, hlines, hsorted, hlisted, fun line hline => ?_⟩
    obtain ⟨rel, hrel, hfile⟩ := (hall line.1 ((hlisted line.1).mp (List.mem_map_of_mem hline))).read
    obtain ⟨a, ha, rfl⟩ := (hmem line).mp hline
    rw [h.shown] at ha
    split at ha
    · have hlatest : db.getLatestByPath id a.path = some a := ha
      refine (h.read_iff _).mpr ⟨rel, hrel, hfile.trans ?_⟩
      show fileAfter stored a.path = _
      rw [← h.latest, hlatest]
      rfl
    · cases ha

end

/-- A job without artifacts holds no writes. -/
theorem holds_nil {db : Commons} {id : JobId} (hjob : (db.getJob id).isSome) (hempty : db.artifactsOf id = []) :
    db.Holds id [] := by
  refine ⟨hjob, by rw [hempty]; rfl, fun path => ?_⟩
  rw [hempty]
  exact .nil

/-- **After any writes on a job the listing is complete exactly if every path written can be found**: fewer than
200 writes went to lesser paths, and `workspace_read` finds a file of that version and size under it. -/
theorem listing_complete_iff {s : Session Commons} {id : JobId} (hjob : (s.working.getJob id).isSome)
    (hempty : s.working.artifactsOf id = []) (calls : List ToolWrite) :
    (afterWrites id s calls).working.ListsAll id (storedBy calls) ↔
      ∀ path ∈ (storedBy calls).map Prod.fst, Findable (storedBy calls) path :=
  (holds_afterWrites calls (holds_nil hjob hempty)).listsAll_iff

/-- A file, and a draft in front of it that is rewritten. -/
def redrafted (n : ℕ) : List ToolWrite :=
  ⟨none, "notes.md", some "done"⟩ :: List.replicate n ⟨none, "draft.md", some "v"⟩

theorem storedBy_redrafted (n : ℕ) :
    storedBy (redrafted n) = ("notes.md", "done") :: List.replicate n ("draft.md", "v") := by
  have hnotes : ToolWrite.stores ⟨none, "notes.md", some "done"⟩ = some ("notes.md", "done") := by decide +kernel
  have hdraft : ToolWrite.stores ⟨none, "draft.md", some "v"⟩ = some ("draft.md", "v") := by decide +kernel
  unfold storedBy redrafted
  rw [List.filterMap_cons_some hnotes, List.filterMap_replicate_of_some hdraft]

/-- The drafts all stand before the file. -/
theorem before_notes (n : ℕ) : ((storedBy (redrafted n)).map Prod.fst).countP (· < "notes.md") = n := by
  have hlt : decide ("draft.md" < "notes.md") = true := by decide +kernel
  rw [storedBy_redrafted, List.map_cons, List.map_replicate, List.countP_cons, List.countP_replicate, if_pos hlt]
  simp

/-- Three drafts are few enough. -/
theorem listing_threeDrafts : (afterWrites 1 (Session.start freshJob) (redrafted 3)).working.ListsAll 1
    (storedBy (redrafted 3)) := by
  refine (listing_complete_iff (by decide) (by decide) (redrafted 3)).mpr fun path hpath => ?_
  have hcount : ((storedBy (redrafted 3)).map Prod.fst).countP (· < path) < 200 :=
    List.countP_le_length.trans_lt (by rw [storedBy_redrafted]; decide)
  refine findable_of_normal ?_ hcount
  rw [storedBy_redrafted, List.map_cons, List.map_replicate] at hpath
  rcases List.mem_cons.mp hpath with rfl | hpath
  · show sanitizeWorkspacePath "notes.md" = .ok "notes.md"
    decide +kernel
  · rw [List.eq_of_mem_replicate hpath]
    show sanitizeWorkspacePath "draft.md" = .ok "draft.md"
    decide +kernel

/-- **A draft that was written 200 times** hides the file behind it. -/
theorem listing_loses_file : ¬ (afterWrites 1 (Session.start freshJob) (redrafted 200)).working.ListsAll 1
    (storedBy (redrafted 200)) := by
  intro hall
  have hstart : (Session.start freshJob).working.Holds 1 [] := holds_nil (by decide) (by decide)
  have hholds := holds_afterWrites (redrafted 200) hstart
  rw [List.nil_append] at hholds
  have hnotes : "notes.md" ∈ (storedBy (redrafted 200)).map Prod.fst := by
    rw [storedBy_redrafted]
    exact List.mem_cons_self
  have hlisted := (hholds.listsAll_iff.mp hall "notes.md" hnotes).listed
  rw [before_notes] at hlisted
  exact lt_irrefl _ hlisted

end Persola.City
