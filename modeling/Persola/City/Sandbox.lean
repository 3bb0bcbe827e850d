import Persola.Lib.Py

/-!
# `City.Sandbox` — workspace paths and the files of a sandboxed run

`sanitize_workspace_path` walks over a path character by character; a `SandboxError` is its message. Of
`run_python_sandboxed` this is what it writes into its fresh directory before it starts the child.
-/

namespace Persola.City

/-- `sanitize_workspace_path`. -/
def sanitizeWorkspacePath (userPath : String) : Except String String :=
  if Py.strip userPath = "" then .error "path is required"
  else
    let slashed := userPath.toList.map fun c => if c = Char.ofNat 92 then '/' else c
    let raw := (Py.strip (String.ofList slashed)).toList
    if raw.head? = some '/' ∨ raw[1]? = some ':' then .error "absolute paths are denied"
    else
      let parts := (raw.splitOn '/').filter fun part => part ≠ [] ∧ part ≠ ['.']
      if parts = [] then .error "path is empty after normalization"
      else if ['.', '.'] ∈ parts then .error "path escape (..) is denied"
      else if parts.any (fun part => part.head? = some '~') then .error "home-relative paths are denied"
      else .ok (String.ofList (['/'].intercalate parts))

/-- A path in normal form: it is its own sanitized path. -/
def NormalPath (path : String) : Prop := sanitizeWorkspacePath path = .ok path

example : sanitizeWorkspacePath "./src//util.py " = .ok "src/util.py" ∧
    sanitizeWorkspacePath "a/../b" = .error "path escape (..) is denied" ∧
    sanitizeWorkspacePath " c:/x" = .error "absolute paths are denied" := by decide +kernel

/-- The files of a sandbox: the script, and the extra files after it. -/
def sandboxFiles (source filename : String) (extraFiles : List (String × String)) :
    Except String (List (String × String)) := do
  let relName ← sanitizeWorkspacePath filename
  -- `resolve_under_root` sanitizes once more
  let script ← sanitizeWorkspacePath relName
  extraFiles.foldlM (fun files file => do
    let target ← sanitizeWorkspacePath file.1
    return Py.setItem files target file.2) [(script, source)]

/-- A script and extra files with paths in normal form are written under these paths. -/
theorem sandboxFiles_normal {source filename : String} {extraFiles : List (String × String)}
    (hname : NormalPath filename) (hextra : ∀ file ∈ extraFiles, NormalPath file.1) :
    sandboxFiles source filename extraFiles = .ok (Py.assign [(filename, source)] extraFiles) := by
  have hscript : sanitizeWorkspacePath filename = .ok filename := hname
  unfold sandboxFiles Py.assign
  rw [hscript]
  dsimp only [bind, Except.bind]
  rw [hscript]
  show extraFiles.foldlM _ [(filename, source)] = _
  generalize [(filename, source)] = files
  induction extraFiles generalizing files with
  | nil => rfl
  | cons file rest ih =>
      have hfile : sanitizeWorkspacePath file.1 = .ok file.1 := hextra file List.mem_cons_self
      rw [List.foldlM_cons, hfile]
      exact ih (fun f hf => hextra f (List.mem_cons_of_mem _ hf)) _

end Persola.City
