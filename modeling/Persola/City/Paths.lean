import Persola.Lib.Lexical
import Persola.City.Tools

/-!
# `City.Paths` — where the paths of agents lead

`sanitize_workspace_path` stands between the paths agents choose and the file system. What it returns is a path of
names, so it leads strictly below every root (`sanitized_contained`). But it looks at the start and the end of a
path before it leaves out components, and what it leaves out may have been what kept a blank or a drive letter
away from the ends. Its callers sanitize once more, so for such a path the file on disk and the row of the
artifact part (`onePath_iff`).
-/

namespace Persola.City

open Lexical

/-! ## What `sanitize_workspace_path` looks at -/

/-- The path as it is checked: backslashes read as slashes, without the blanks around it. -/
def rawPath (userPath : String) : List Char :=
  (Py.strip (String.ofList (userPath.toList.map fun c => if c = Char.ofNat 92 then '/' else c))).toList

/-- The components that are kept. -/
def keptParts (userPath : String) : List Part :=
  (parts (rawPath userPath)).filter fun part => part ≠ [] ∧ part ≠ ['.']

/-- What an accepted path has shown. -/
structure Accepted (userPath : String) : Prop where
  given : Py.strip userPath ≠ ""
  relative : (rawPath userPath).head? ≠ some '/' ∧ (rawPath userPath)[1]? ≠ some ':'
  kept : keptParts userPath ≠ []
  noEscape : up ∉ keptParts userPath
  noHome : ∀ part ∈ keptParts userPath, part.head? ≠ some '~'

section
variable {userPath rel : String} {part : Part}

/-- **A path is accepted or denied**, and what is returned are the components kept. -/
theorem sanitizeWorkspacePath_eq_ok_iff : sanitizeWorkspacePath userPath = .ok rel ↔
    Accepted userPath ∧ rel = String.ofList (join (keptParts userPath)) := by
  show (if Py.strip userPath = "" then Except.error _ else
    if (rawPath userPath).head? = some '/' ∨ (rawPath userPath)[1]? = some ':' then .error _ else
    if keptParts userPath = [] then .error _ else
    if up ∈ keptParts userPath then .error _ else
    if (keptParts userPath).any (fun part => part.head? = some '~') then .error _ else
    .ok (String.ofList (join (keptParts userPath)))) = .ok rel ↔ _
  constructor
  · intro h
    split at h
    · cases h
    split at h
    · cases h
    split at h
    · cases h
    split at h
    · cases h
    split at h
    · cases h
    · next hgiven habsolute hkept hescape hhome =>
        refine ⟨⟨hgiven, not_or.mp habsolute, hkept, hescape, fun part hpart hhead => hhome ?_⟩,
          (Except.ok.inj h).symm⟩
        exact List.any_eq_true.mpr ⟨part, hpart, decide_eq_true hhead⟩
  · rintro ⟨⟨hgiven, habsolute, hkept, hescape, hhome⟩, rfl⟩
    rw [if_neg hgiven, if_neg (not_or.mpr habsolute), if_neg hkept, if_neg hescape, if_neg]
    intro hany
    obtain ⟨part, hpart, hhead⟩ := List.any_eq_true.mp hany
    exact hhome part hpart (of_decide_eq_true hhead)

/-- A path that is not accepted raises a `SandboxError`. -/
theorem sanitizeWorkspacePath_error (h : ¬ Accepted userPath) : ∃ e, sanitizeWorkspacePath userPath = .error e := by
  cases hpath : sanitizeWorkspacePath userPath with
  | error e => exact ⟨e, rfl⟩
  | ok rel => exact absurd (sanitizeWorkspacePath_eq_ok_iff.mp hpath).1 h

theorem not_backslash_of_mem_rawPath {c : Char} (h : c ∈ rawPath userPath) : c ≠ Char.ofNat 92 := by
  unfold rawPath Py.strip Py.rstrip at h
  simp only [String.toList_ofList] at h
  have h := (List.dropWhile_sublist _).mem (List.mem_reverse.mp ((List.dropWhile_sublist _).mem h))
  obtain ⟨d, -, rfl⟩ := List.mem_map.mp (List.mem_reverse.mp h)
  split
  · decide
  · assumption

/-- The components kept of an accepted path are names. -/
theorem Accepted.names (h : Accepted userPath) : ∀ part ∈ keptParts userPath,
    Name part ∧ part.head? ≠ some '~' ∧ Char.ofNat 92 ∉ part := by
  intro part hpart
  obtain ⟨hmem, hkept⟩ := List.mem_filter.mp hpart
  have hchars := of_mem_parts hmem
  have hstays : ¬ Stays part := not_or.mpr (of_decide_eq_true hkept)
  refine ⟨⟨fun hslash => (hchars _ hslash).2 rfl, hstays, fun heq => h.noEscape (heq ▸ hpart)⟩,
    h.noHome part hpart, fun hback => not_backslash_of_mem_rawPath (hchars _ hback).1 rfl⟩

/-- The components of the sanitized path are those that were kept. -/
theorem parts_of_sanitized (h : sanitizeWorkspacePath userPath = .ok rel) : parts rel.toList = keptParts userPath := by
  obtain ⟨haccepted, rfl⟩ := sanitizeWorkspacePath_eq_ok_iff.mp h
  rw [String.toList_ofList]
  exact parts_join (fun part hpart => (haccepted.names part hpart).1.noSlash) haccepted.kept

theorem resolve_of_sanitized (h : sanitizeWorkspacePath userPath = .ok rel) (dir : Dir) :
    resolve dir rel.toList = dir ++ keptParts userPath := by
  obtain ⟨haccepted, rfl⟩ := sanitizeWorkspacePath_eq_ok_iff.mp h
  rw [String.toList_ofList]
  exact resolve_join (fun part hpart => (haccepted.names part hpart).1) haccepted.kept

end

/-! ## Containment -/

/-- The path tries to leave: it goes up somewhere, or starts at the root of the file system. -/
def Escapes (userPath : String) : Prop :=
  up ∈ parts (rawPath userPath) ∨ (rawPath userPath).head? = some '/'

theorem not_accepted_of_escapes {userPath : String} (h : Escapes userPath) : ¬ Accepted userPath := by
  intro haccepted
  rcases h with hup | habsolute
  · exact haccepted.noEscape (List.mem_filter.mpr ⟨hup, by decide⟩)
  · exact haccepted.relative.1 habsolute

/-- **Path containment**: what is returned is made of names, none of them a home directory and none with a
backslash, so from every working directory and root it leads to the root extended by its components; and a path
that tries to leave is denied. -/
theorem sanitized_contained (userPath : String) :
    (∀ rel, sanitizeWorkspacePath userPath = .ok rel →
      parts rel.toList ≠ [] ∧
      (∀ part ∈ parts rel.toList, part ≠ [] ∧ part ≠ ['.'] ∧ part ≠ ['.', '.'] ∧
        part.head? ≠ some '~' ∧ Char.ofNat 92 ∉ part) ∧
      ∀ (cwd : Dir) (root : List Char),
        resolve (resolve cwd root) rel.toList = resolve cwd root ++ parts rel.toList ∧
        Below (resolve cwd root) (resolve (resolve cwd root) rel.toList)) ∧
    (Escapes userPath → ∃ e, sanitizeWorkspacePath userPath = .error e) := by
  refine ⟨fun rel h => ?_, fun h => sanitizeWorkspacePath_error (not_accepted_of_escapes h)⟩
  have haccepted := (sanitizeWorkspacePath_eq_ok_iff.mp h).1
  rw [parts_of_sanitized h]
  refine ⟨haccepted.kept, fun part hpart => ?_, fun cwd root => ?_⟩
  · obtain ⟨hname, hhome, hback⟩ := haccepted.names part hpart
    obtain ⟨hne, hdot⟩ := not_or.mp hname.moves
    exact ⟨hne, hdot, hname.down, hhome, hback⟩
  · rw [resolve_of_sanitized h]
    exact ⟨rfl, below_append haccepted.kept⟩

/-! ## Sanitizing again -/

/-- `resolve_under_root`, for a process in the directory `cwd`. -/
def resolveUnderRoot (cwd : Dir) (root userPath : String) : Except String Dir := do
  let rel ← sanitizeWorkspacePath userPath
  let rootResolved := resolve cwd root.toList
  let full := resolve rootResolved rel.toList
  if rootResolved <+: full then .ok full else .error "path escapes workspace root"

/-- `resolve_under_root` never gets as far as its own check. -/
theorem resolveUnderRoot_eq (cwd : Dir) (root userPath : String) : resolveUnderRoot cwd root userPath =
    (sanitizeWorkspacePath userPath).map fun rel => resolve cwd root.toList ++ parts rel.toList := by
  unfold resolveUnderRoot
  cases h : sanitizeWorkspacePath userPath with
  | error e => rfl
  | ok rel =>
      dsimp only [bind, Except.bind, Except.map]
      rw [resolve_of_sanitized h, parts_of_sanitized h, if_pos (List.prefix_append _ _)]

/-- Where `mirror_artifact` writes: `path` and `absolute` of its answer, below the directory of the job. -/
def mirrorArtifact (cwd : Dir) (base path : String) : Except String (String × Dir) := do
  let rel ← sanitizeWorkspacePath path
  let target ← resolveUnderRoot cwd base rel
  return (rel, target)

/-- **One path for all**: `workspace_write` stores the artifact under a path that is its own sanitized path, and
the mirror and the sandbox write the file under it. -/
def OnePath (userPath : String) : Prop :=
  ∀ rel, sanitizeWorkspacePath userPath = .ok rel → sanitizeWorkspacePath rel = .ok rel ∧
    ∀ cwd root, mirrorArtifact cwd root rel = .ok (rel, resolve cwd root.toList ++ parts rel.toList) ∧
      resolveUnderRoot cwd root rel = .ok (resolve cwd root.toList ++ parts rel.toList)

/-- The components kept do not bring anything to the ends of the path that the checks there would have seen. -/
structure Plain (userPath : String) : Prop where
  start : ∀ first ∈ (keptParts userPath).head?, (∀ c ∈ first.head?, Py.isSpace c = false) ∧ first[1]? ≠ some ':'
  stop : ∀ last ∈ (keptParts userPath).getLast?, ∀ c ∈ last.getLast?, Py.isSpace c = false

section
variable {userPath rel : String}

/-- A sanitized path has no backslashes left. -/
theorem rawPath_of_sanitized (h : sanitizeWorkspacePath userPath = .ok rel) :
    rawPath rel = (Py.strip rel).toList := by
  obtain ⟨haccepted, rfl⟩ := sanitizeWorkspacePath_eq_ok_iff.mp h
  have hback : ∀ c ∈ join (keptParts userPath), c ≠ Char.ofNat 92 := by
    rintro c hc rfl
    rcases of_mem_join hc with hslash | ⟨part, hpart, hmem⟩
    · exact absurd hslash (by decide)
    · exact (haccepted.names part hpart).2.2 hmem
  have hsame : (join (keptParts userPath)).map (fun c => if c = Char.ofNat 92 then '/' else c) =
      join (keptParts userPath) :=
    (List.map_congr_left fun c hc => if_neg (hback c hc)).trans (List.map_id _)
  unfold rawPath
  rw [String.toList_ofList, hsame]

/-- **A sanitized path is in normal form** exactly if it has no blank at its ends and no colon in its second
    place. -/
theorem normalPath_of_sanitized_iff (h : sanitizeWorkspacePath userPath = .ok rel) :
    NormalPath rel ↔ (Py.strip rel).toList = rel.toList ∧ rel.toList[1]? ≠ some ':' := by
  have hraw := rawPath_of_sanitized h
  have hparts := parts_of_sanitized h
  have haccepted := (sanitizeWorkspacePath_eq_ok_iff.mp h).1
  have hne : rel.toList ≠ [] := by
    intro hnil
    obtain ⟨part, hpart⟩ := List.exists_mem_of_ne_nil _ haccepted.kept
    rw [← hparts, hnil] at hpart
    obtain rfl := List.mem_singleton.mp hpart
    exact (haccepted.names [] (by rw [← hparts, hnil]; exact hpart)).1.ne_nil rfl
  constructor
  · intro hnormal
    obtain ⟨hrel, heq⟩ := sanitizeWorkspacePath_eq_ok_iff.mp hnormal
    have hlist : rel.toList = join (keptParts rel) := (congrArg String.toList heq).trans String.toList_ofList
    have hstrip : (Py.strip rel).toList = rel.toList := by
      -- leaving components out does not make up for blanks that were cut off
      refine (Py.strip_sublist _).eq_of_length_le ?_
      have hsub : (keptParts rel).Sublist (parts (rawPath rel)) := List.filter_sublist
      have hle := length_join_le_of_sublist hsub hrel.kept
      rw [join_parts, ← hlist, hraw] at hle
      exact hle
    exact ⟨hstrip, fun hcolon => hrel.relative.2 (by rw [hraw, hstrip, hcolon])⟩
  · rintro ⟨hstrip, hcolon⟩
    have hraw' : rawPath rel = rel.toList := hraw.trans hstrip
    have hkept : keptParts rel = keptParts userPath := by
      unfold keptParts
      rw [hraw', hparts]
      exact List.filter_eq_self.mpr fun part hpart =>
        decide_eq_true (not_or.mp (haccepted.names part hpart).1.moves)
    obtain ⟨-, hjoin⟩ := sanitizeWorkspacePath_eq_ok_iff.mp h
    refine sanitizeWorkspacePath_eq_ok_iff.mpr ⟨⟨?_, ⟨?_, ?_⟩, ?_, ?_, ?_⟩, by rw [hkept, ← hjoin]⟩
    · intro hnil
      rw [hnil] at hstrip
      exact hne hstrip.symm
    · obtain ⟨first, rest, hfirst⟩ := List.exists_cons_of_ne_nil haccepted.kept
      have hname := (haccepted.names first (hfirst ▸ List.mem_cons_self)).1
      rw [hraw', hjoin, String.toList_ofList, hfirst, head?_join hname.ne_nil]
      exact fun hhead => hname.noSlash (List.mem_of_mem_head? hhead)
    · rwa [hraw']
    · rw [hkept]
      exact haccepted.kept
    · rw [hkept]
      exact haccepted.noEscape
    · rw [hkept]
      exact haccepted.noHome

/-- The ends of the sanitized path are those of the components kept. -/
theorem plain_iff (h : sanitizeWorkspacePath userPath = .ok rel) :
    (Py.strip rel).toList = rel.toList ∧ rel.toList[1]? ≠ some ':' ↔ Plain userPath := by
  obtain ⟨haccepted, rfl⟩ := sanitizeWorkspacePath_eq_ok_iff.mp h
  obtain ⟨first, rest, hfirst⟩ := List.exists_cons_of_ne_nil haccepted.kept
  obtain ⟨last, hlast⟩ := Option.ne_none_iff_exists'.mp
    (mt List.getLast?_eq_none_iff.mp haccepted.kept)
  have hfirstName := (haccepted.names first (hfirst ▸ List.mem_cons_self)).1.ne_nil
  have hlastName := (haccepted.names last (List.mem_of_getLast? hlast)).1.ne_nil
  have hhead : (join (keptParts userPath)).head? = first.head? := by rw [hfirst, head?_join hfirstName]
  have hcolon : (join (keptParts userPath))[1]? = some ':' ↔ first[1]? = some ':' := by
    rw [hfirst]
    exact getElem?_join hfirstName (by decide)
  rw [String.toList_ofList, Py.strip_eq_self_iff, hhead, getLast?_join hlast hlastName, ne_eq, hcolon]
  constructor
  · rintro ⟨⟨hstart, hstop⟩, hsecond⟩
    refine ⟨fun part hpart => ?_, fun part hpart => ?_⟩
    · rw [hfirst] at hpart
      obtain rfl := Option.some.inj hpart
      exact ⟨hstart, hsecond⟩
    · rw [hlast] at hpart
      obtain rfl := Option.some.inj hpart
      exact hstop
  · rintro ⟨hstart, hstop⟩
    obtain ⟨hblank, hsecond⟩ := hstart first (by rw [hfirst]; rfl)
    exact ⟨⟨hblank, hstop last hlast⟩, hsecond⟩

end

/-- **A path that is accepted is accepted again, as it is,** exactly if the components kept are plain. -/
theorem onePath_iff (userPath : String) : OnePath userPath ↔ (Accepted userPath → Plain userPath) := by
  cases h : sanitizeWorkspacePath userPath with
  | error e =>
      refine iff_of_true (fun rel hrel => by rw [h] at hrel; cases hrel) fun haccepted => ?_
      rw [sanitizeWorkspacePath_eq_ok_iff.mpr ⟨haccepted, rfl⟩] at h
      cases h
  | ok rel =>
      have haccepted := (sanitizeWorkspacePath_eq_ok_iff.mp h).1
      rw [← plain_iff h, ← normalPath_of_sanitized_iff h]
      constructor
      · exact fun hone _ => (hone rel h).1
      · intro hnormal rel' hrel'
        obtain rfl := Except.ok.inj (h.symm.trans hrel')
        have hagain : sanitizeWorkspacePath rel = .ok rel := hnormal haccepted
        refine ⟨hagain, fun cwd root => ?_⟩
        have htarget : resolveUnderRoot cwd root rel = .ok (resolve cwd root.toList ++ parts rel.toList) := by
          rw [resolveUnderRoot_eq, hagain]
          rfl
        refine ⟨?_, htarget⟩
        unfold mirrorArtifact
        rw [hagain]
        dsimp only [bind, Except.bind]
        rw [htarget]
        rfl

/-- **A drive letter behind a component that is left out**: the artifact is stored as `c:/notes.md`, and neither
the mirror nor the sandbox writes a file. -/
theorem sanitized_denied : sanitizeWorkspacePath "./c:/notes.md" = .ok "c:/notes.md" ∧
    sanitizeWorkspacePath "c:/notes.md" = .error "absolute paths are denied" ∧ ¬ OnePath "./c:/notes.md" := by
  have hfirst : sanitizeWorkspacePath "./c:/notes.md" = .ok "c:/notes.md" := by decide +kernel
  have hagain : sanitizeWorkspacePath "c:/notes.md" = .error "absolute paths are denied" := by decide +kernel
  refine ⟨hfirst, hagain, fun hone => ?_⟩
  have hnormal := (hone _ hfirst).1
  rw [hagain] at hnormal
  cases hnormal

end Persola.City
