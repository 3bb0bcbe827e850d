import Persola.City.Paths
import Persola.City.Pulse
import Persola.Lib.Integers
import Persola.Lib.Literal
import Persola.Lib.Splice

/-!
# `City.Generated` — the paths, the JSON and the scripts of a pulse

The texts for a family are put together from its name, of which `_slug` only changes blanks and capitals. They are
well formed exactly if what is kept of the name can stand where it is put (`wellFormed_iff`): in a path no component
may lead up or home, in JSON there may be no mark, backslash or control character, and in the literal of a script no
mark, end of a line or escape.
-/

namespace Persola.City.Pulse

open Lexical

/-- What holds of the characters of a text is decided by going through the text. -/
local instance decidableForallText {p : Char → Prop} [DecidablePred p] (t : List Char) : Decidable (∀ c ∈ t, p c) :=
  List.decidableBAll p t

local instance decidableForallOption {p : Char → Prop} [DecidablePred p] (c? : Option Char) :
    Decidable (∀ c ∈ c?, p c) := Option.decidableForallMem c?

/-! ## Paths -/

/-- Backslashes read as slashes. -/
def slashes (t : List Char) : List Char := t.map fun c => if c = Char.ofNat 92 then '/' else c

/-- Put into a path, the text does not lead up, nor home. -/
structure StaysBelow (t : List Char) : Prop where
  up : up ∉ (parts (slashes t)).dropLast
  home : ∀ part ∈ parts (slashes t), part.head? ≠ some '~'

/-- What stands before a text in a path, as a directory. -/
structure Folder (folder : List Char) : Prop where
  noSlash : ∀ c ∈ folder, c ≠ '/' ∧ c ≠ Char.ofNat 92
  head : ∀ c ∈ folder.head?, Py.isSpace c = false ∧ c ≠ '~'
  second : ∃ c ∈ folder[1]?, c ≠ ':' ∧ c ≠ '.'

/-- What stands after a text in a path. -/
structure Suffix (suffix : List Char) : Prop where
  noSlash : ∀ c ∈ suffix, c ≠ '/' ∧ c ≠ Char.ofNat 92
  head : suffix.head? ≠ some '~'
  last : ∀ c ∈ suffix.getLast?, Py.isSpace c = false
  length : 3 ≤ suffix.length

section
variable {folder suffix t : List Char}

theorem join_append (init : List Part) (last suffix : List Char) :
    join (init ++ [last]) ++ suffix = join (init ++ [last ++ suffix]) := by
  induction init with
  | nil => simp [join]
  | cons part init ih =>
      rw [List.cons_append, List.cons_append, join_cons, join_cons, if_neg (by simp), if_neg (by simp),
        List.append_assoc, List.cons_append, ih]

/-- What follows a path without a slash belongs to its last component. -/
theorem parts_append (hsuffix : '/' ∉ suffix) (path : List Char) : ∃ init last, parts path = init ++ [last] ∧
    parts (path ++ suffix) = init ++ [last ++ suffix] := by
  have hne : parts path ≠ [] := List.splitOn_ne_nil '/' path
  refine ⟨(parts path).dropLast, (parts path).getLast hne, (List.dropLast_append_getLast hne).symm, ?_⟩
  have hjoin := join_append (parts path).dropLast ((parts path).getLast hne) suffix
  rw [List.dropLast_append_getLast hne, join_parts] at hjoin
  rw [hjoin]
  refine parts_join (fun part hpart hslash => ?_) (by simp)
  rcases List.mem_append.mp hpart with hpart | hpart
  · exact (of_mem_parts (List.dropLast_subset _ hpart) _ hslash).2 rfl
  · rw [List.mem_singleton.mp hpart, List.mem_append] at hslash
    exact hslash.elim (fun h => (of_mem_parts (List.getLast_mem hne) _ h).2 rfl) hsuffix

theorem slashes_eq_self (h : ∀ c ∈ t, c ≠ '/' ∧ c ≠ Char.ofNat 92) : slashes t = t := by
  unfold slashes
  refine (List.map_congr_left fun c hc => if_neg (h c hc).2).trans (List.map_id' t)

/-- Such a text starts and ends without a blank. -/
theorem strip_eq (hfolder : Folder folder) (hsuffix : Suffix suffix) (t : List Char) :
    (Py.strip (String.ofList (folder ++ '/' :: (t ++ suffix)))).toList = folder ++ '/' :: (t ++ suffix) := by
  obtain ⟨c, hc, -⟩ := hfolder.second
  rw [Py.strip_eq_self_iff]
  constructor
  · have hne : folder ≠ [] := by
      rintro rfl
      cases hc
    rw [List.head?_append_of_ne_nil _ hne]
    exact fun c hc => (hfolder.head c hc).1
  · have hne : suffix ≠ [] := by
      rintro rfl
      exact absurd hsuffix.length (by decide)
    rw [List.append_cons, ← List.append_assoc, List.getLast?_append_of_ne_nil _ hne]
    exact hsuffix.last

theorem rawPath_eq (hfolder : Folder folder) (hsuffix : Suffix suffix) :
    rawPath (String.ofList (folder ++ '/' :: (t ++ suffix))) = folder ++ '/' :: (slashes t ++ suffix) := by
  have hmap : slashes (folder ++ '/' :: (t ++ suffix)) = folder ++ '/' :: (slashes t ++ suffix) := by
    have happend : slashes (folder ++ '/' :: (t ++ suffix)) =
        slashes folder ++ '/' :: (slashes t ++ slashes suffix) := by simp [slashes]
    rw [happend, slashes_eq_self hfolder.noSlash, slashes_eq_self hsuffix.noSlash]
  unfold rawPath
  rw [String.toList_ofList]
  show (Py.strip (String.ofList (slashes (folder ++ '/' :: (t ++ suffix))))).toList = _
  rw [hmap, strip_eq hfolder hsuffix]

/-- The components of such a path. -/
theorem parts_rawPath (hfolder : Folder folder) (hsuffix : Suffix suffix) : ∃ init last,
    parts (slashes t) = init ++ [last] ∧
      parts (rawPath (String.ofList (folder ++ '/' :: (t ++ suffix)))) = folder :: init ++ [last ++ suffix] := by
  obtain ⟨init, last, hparts, hsplit⟩ := parts_append (fun hslash => (hsuffix.noSlash _ hslash).1 rfl) (slashes t)
  refine ⟨init, last, hparts, ?_⟩
  rw [rawPath_eq hfolder hsuffix]
  show (folder ++ '/' :: (slashes t ++ suffix)).splitOn '/' = _
  rw [List.splitOn_append_cons_self_of_not_mem fun hslash => (hfolder.noSlash _ hslash).1 rfl]
  exact congrArg (folder :: ·) hsplit

/-- The folder is a name. -/
theorem Folder.ordinary (h : Folder folder) : folder ≠ [] ∧ folder ≠ ['.'] ∧ folder ≠ up := by
  obtain ⟨second, hsecond, -, hdot⟩ := h.second
  refine ⟨?_, ?_, ?_⟩
  all_goals
    rintro rfl
  · cases hsecond
  · cases hsecond
  · exact hdot (Option.some.inj hsecond).symm

/-- So is what ends in the suffix. -/
theorem Suffix.ordinary (h : Suffix suffix) (last : Part) :
    last ++ suffix ≠ [] ∧ last ++ suffix ≠ ['.'] ∧ last ++ suffix ≠ up := by
  have hlength : 3 ≤ (last ++ suffix).length := by
    rw [List.length_append]
    exact h.length.trans (Nat.le_add_left _ _)
  refine ⟨?_, ?_, ?_⟩
  all_goals
    intro heq
    rw [heq] at hlength
    exact absurd hlength (by decide)

theorem Suffix.home_iff (h : Suffix suffix) (last : Part) :
    (last ++ suffix).head? = some '~' ↔ last.head? = some '~' := by
  cases last with
  | nil => exact iff_of_false h.head (by simp)
  | cons c last => exact Iff.rfl

/-- **A text in a path**: it is accepted exactly if the text does not lead up or home. -/
theorem accepted_iff (hfolder : Folder folder) (hsuffix : Suffix suffix) :
    Accepted (String.ofList (folder ++ '/' :: (t ++ suffix))) ↔ StaysBelow t := by
  obtain ⟨init, last, hparts, hsplit⟩ := parts_rawPath (t := t) hfolder hsuffix
  obtain ⟨second, hsecond, hcolon, -⟩ := hfolder.second
  have hkept (part : Part) : part ∈ keptParts (String.ofList (folder ++ '/' :: (t ++ suffix))) ↔
      (part = folder ∨ part ∈ init ∨ part = last ++ suffix) ∧ part ≠ [] ∧ part ≠ ['.'] := by
    unfold keptParts
    rw [List.mem_filter, hsplit, decide_eq_true_eq]
    simp
  have hfolder' := hfolder.ordinary
  have hlast := hsuffix.ordinary last
  have hhome := hsuffix.home_iff last
  constructor
  · intro h
    refine ⟨?_, ?_⟩
    · rw [hparts, List.dropLast_concat]
      exact fun hup => h.noEscape ((hkept _).mpr ⟨.inr (.inl hup), by decide, by decide⟩)
    · rw [hparts]
      intro part hpart htilde
      have hne : part ≠ [] ∧ part ≠ ['.'] := by
        constructor
        all_goals
          rintro rfl
          cases htilde
      rcases List.mem_append.mp hpart with hpart | hpart
      · exact h.noHome part ((hkept _).mpr ⟨.inr (.inl hpart), hne⟩) htilde
      · obtain rfl := List.mem_singleton.mp hpart
        exact h.noHome _ ((hkept _).mpr ⟨.inr (.inr rfl), hlast.1, hlast.2.1⟩) (hhome.mpr htilde)
  · rintro ⟨hup, htilde⟩
    rw [hparts, List.dropLast_concat] at hup
    rw [hparts] at htilde
    have hfirst : (rawPath (String.ofList (folder ++ '/' :: (t ++ suffix)))).head? = folder.head? := by
      rw [rawPath_eq hfolder hsuffix, List.head?_append_of_ne_nil _ hfolder'.1]
    refine ⟨?_, ⟨?_, ?_⟩, ?_, ?_, ?_⟩
    · intro hempty
      have hstrip := strip_eq hfolder hsuffix t
      rw [hempty] at hstrip
      exact absurd hstrip.symm (by simp)
    · rw [hfirst]
      exact fun hslash => (hfolder.noSlash _ (List.mem_of_head? hslash)).1 rfl
    · have hindex := (List.getElem?_eq_some_iff.mp hsecond).1
      rw [rawPath_eq hfolder hsuffix, List.getElem?_append_left hindex, hsecond]
      exact fun heq => hcolon (Option.some.inj heq)
    · exact List.ne_nil_of_mem ((hkept folder).mpr ⟨.inl rfl, hfolder'.1, hfolder'.2.1⟩)
    · intro hmem
      rcases ((hkept _).mp hmem).1 with heq | hmem | heq
      · exact hfolder'.2.2 heq.symm
      · exact hup hmem
      · exact hlast.2.2 heq.symm
    · intro part hpart
      rcases ((hkept _).mp hpart).1 with rfl | hmem | rfl
      · exact fun hhead => (hfolder.head _ hhead).2 rfl
      · exact htilde part (List.mem_append_left _ hmem)
      · exact fun hhead => htilde last (List.mem_append_right _ (List.mem_singleton.mpr rfl)) (hhome.mp hhead)

/-- `sanitize_workspace_path` on a text in a path. -/
theorem sanitize_iff {folder slug suffix : String} (hfolder : Folder folder.toList) (hsuffix : Suffix suffix.toList) :
    (∃ rel, sanitizeWorkspacePath (folder ++ "/" ++ slug ++ suffix) = .ok rel) ↔ StaysBelow slug.toList := by
  have hpath : folder ++ "/" ++ slug ++ suffix =
      String.ofList (folder.toList ++ '/' :: (slug.toList ++ suffix.toList)) := by
    rw [← String.toList_inj, String.toList_ofList]
    simp
  rw [hpath, ← accepted_iff hfolder hsuffix]
  exact ⟨fun ⟨rel, h⟩ => (sanitizeWorkspacePath_eq_ok_iff.mp h).1,
    fun h => ⟨_, sanitizeWorkspacePath_eq_ok_iff.mpr ⟨h, rfl⟩⟩⟩

end

/-! ## JSON -/

section
variable {ν : Type*} [Numeral ν]

/-- The JSON around a text. -/
theorem vizContent_eq (slug : String) : (vizContent slug).toList =
    "\x7b\"kind\":\"city-viz\",\"family\":".toList ++ '"' :: (slug.toList ++ '"' :: ',' :: '"' ::
      "palette\":[\"teal\",\"violet\",\"amber\"],\"nodes\":\"lineage\"\x7d\n".toList) := by
  unfold vizContent
  rw [String.toList_append, String.toList_append]
  have hbefore : "\x7b\"kind\":\"city-viz\",\"family\":\"".toList =
      "\x7b\"kind\":\"city-viz\",\"family\":".toList ++ ['"'] := by decide
  rw [hbefore, List.append_assoc, List.append_assoc]
  rfl

/-- The fields after the text. -/
def otherFields : List (String × Json ν) :=
  [("palette", .arr [.str "teal", .str "violet", .str "amber"]), ("nodes", .str "lineage")]

/-- The array of the palette. -/
theorem scanOnce_palette (fuel : ℕ) (r : List Char) : Json.scanOnce (ν := ν) (fuel + 5)
    ('[' :: '"' :: ("teal".toList ++ '"' :: ',' :: '"' :: ("violet".toList ++ '"' :: ',' :: '"' :: ("amber".toList ++
      '"' :: ']' :: r)))) = some (.arr [.str "teal", .str "violet", .str "amber"], r) := by
  rw [Json.scanOnce_array, Json.skip_cons (by decide), Json.scanItems_plain (by decide),
    Json.scanItems_plain (by decide), Json.scanItems_last (by decide)]
  · rfl
  · intro r heq
    rw [Json.skip_cons (by decide)] at heq
    exact absurd (List.cons.inj heq).1 (by decide)

theorem scanFields_otherFields (fuel : ℕ) : Json.scanFields (ν := ν) (fuel + 6)
    ('"' :: ("palette".toList ++ '"' :: ':' :: '[' :: '"' :: ("teal".toList ++ '"' :: ',' :: '"' :: ("violet".toList ++
      '"' :: ',' :: '"' :: ("amber".toList ++ '"' :: ']' :: ',' :: '"' :: ("nodes".toList ++ '"' :: ':' :: '"' ::
        ("lineage".toList ++ ['"', '}', '\n']))))))) = some (otherFields, ['\n']) := by
  rw [Json.scanFields_plain (by decide) (Json.skip_cons (by decide)) (scanOnce_palette fuel _),
    Json.scanFields_last (by decide) (Json.skip_cons (by decide)) (Json.scanOnce_plain (by decide))]
  rfl

/-- The object for a text that can stand in it. -/
theorem loads_vizContent {slug : String} (h : Json.Plain slug.toList) : Json.loads (ν := ν) (vizContent slug).toList =
    some (.obj (("kind", .str "city-viz") :: ("family", .str slug) :: otherFields)) := by
  have hcontent : (vizContent slug).toList = '{' :: '"' :: ("kind".toList ++ '"' :: ':' :: '"' ::
      ("city-viz".toList ++ '"' :: ',' :: '"' :: ("family".toList ++ '"' :: ':' :: '"' :: (slug.toList ++ '"' :: ',' ::
        '"' :: ("palette".toList ++ '"' :: ':' :: '[' :: '"' :: ("teal".toList ++ '"' :: ',' :: '"' ::
          ("violet".toList ++ '"' :: ',' :: '"' :: ("amber".toList ++ '"' :: ']' :: ',' :: '"' ::
            ("nodes".toList ++ '"' :: ':' :: '"' :: ("lineage".toList ++ ['"', '}', '\n'])))))))))) := by
    rw [vizContent_eq]
    rfl
  have hkeys : (([] ++ ("kind", .str "city-viz") :: ("family", .str slug) :: otherFields : List (String × Json ν)).map
      Prod.fst).Nodup := by
    show ["kind", "family", "palette", "nodes"].Nodup
    decide
  have hobject (fuel : ℕ) : Json.scanOnce (ν := ν) (fuel + 9) (vizContent slug).toList =
      some (.obj (("kind", .str "city-viz") :: ("family", .str slug) :: otherFields), ['\n']) := by
    rw [hcontent, Json.scanOnce_object, Json.skip_cons (by decide),
      Json.scanFields_plain (by decide) (Json.skip_cons (by decide)) (Json.scanOnce_plain (by decide)),
      Json.scanFields_plain (by decide) (Json.skip_cons (by decide)) (Json.scanOnce_plain h), scanFields_otherFields]
    · simp only [String.ofList_toList, Option.map_some]
      rw [Py.assign_new hkeys]
      rfl
    · intro r heq
      rw [Json.skip_cons (by decide)] at heq
      exact absurd (List.cons.inj heq).1 (by decide)
  have hskip : Json.skip (vizContent slug).toList = (vizContent slug).toList := by
    rw [hcontent]
    exact Json.skip_cons (by decide)
  obtain ⟨fuel, hfuel⟩ : ∃ fuel, 2 * (vizContent slug).toList.length + 1 = fuel + 9 := by
    refine Nat.exists_eq_add_of_le' ?_
    rw [hcontent]
    simp
    omega
  unfold Json.loads
  rw [hskip, hfuel, hobject]
  rfl

/-- **The JSON of a pulse**: its family is the text exactly if the text can stand in a quotation. -/
theorem vizContent_iff (slug : String) : (∃ fields, Json.loads (ν := ν) (vizContent slug).toList = some (.obj fields) ∧
    fields.lookup "family" = some (.str slug)) ↔ Json.Plain slug.toList := by
  refine ⟨fun ⟨fields, hloads, hfamily⟩ => ?_, fun h => ⟨_, loads_vizContent h, rfl⟩⟩
  rw [vizContent_eq] at hloads
  have hbefore : ∀ c ∈ "\x7b\"kind\":\"city-viz\",\"family\":".toList, c ≠ '\\' := by decide
  have hafter : ∀ c ∈ "palette\":[\"teal\",\"violet\",\"amber\"],\"nodes\":\"lineage\"\x7d\n".toList, c ≠ '\\' := by
    decide
  refine (Json.plain_of_loads hbefore hafter hloads).resolve_right fun htexts => ?_
  obtain ⟨before, after, rfl, -⟩ := List.lookup_eq_some_iff.mp hfamily
  exact (htexts.fields _ rfl _ (List.mem_append_right _ List.mem_cons_self)).2 slug rfl rfl

end

/-! ## Scripts -/

/-- What stands before the name of the family in a script. -/
def familyMark : List Char := "print(\"family\", ".toList

/-- The value of the literal for the family. A source with a null character is none. -/
def familyLiteral (names : List Char → Option Char) (source : String) : Option String :=
  if Char.ofNat 0 ∈ source.toList then none
  else
    let lines := Literal.newlines false source.toList
    (Literal.read names (lines.drop ((Py.charsBefore familyMark lines).length + familyMark.length))).map fun literal =>
      String.ofList literal.1

/-- A text that can stand in the literal of a script. -/
structure Quotable (t : List Char) : Prop where
  verbatim : Literal.Verbatim t
  characters : ∀ c ∈ t, c ≠ '\r' ∧ c ≠ Char.ofNat 0

/-- What a script has before and after the family. -/
structure Script (before after : List Char) : Prop where
  characters : ∀ c ∈ before ++ familyMark ++ '"' :: after, c ≠ '\r' ∧ c ≠ Char.ofNat 0
  mark : ∀ t, Py.charsBefore familyMark (before ++ (familyMark ++ t)) = before
  closes : Literal.Closes after

/-- **The literal of a script**: it is the text exactly if the text can stand in it. -/
theorem familyLiteral_iff {names : List Char → Option Char} {before after t : List Char} (h : Script before after) :
    familyLiteral names (String.ofList (before ++ familyMark ++ '"' :: (t ++ '"' :: after))) = some (String.ofList t) ↔
      Quotable t := by
  have hcharacters := h.characters
  have hbefore : '\r' ∉ before ++ familyMark := fun hmem => (hcharacters _ (List.mem_append_left _ hmem)).1 rfl
  have hafter : '\r' ∉ after := fun hmem =>
    (hcharacters _ (List.mem_append_right _ (List.mem_cons_of_mem _ hmem))).1 rfl
  have hlines : Literal.newlines false (before ++ familyMark ++ '"' :: (t ++ '"' :: after)) =
      before ++ (familyMark ++ '"' :: (Literal.newlines false t ++ '"' :: after)) := by
    rw [Literal.newlines_append (by decide) (by decide), Literal.newlines_append (by decide) (by decide),
      Literal.newlines_eq_self hbefore, Literal.newlines_eq_self hafter, List.append_assoc]
  have hnull : Char.ofNat 0 ∈ before ++ familyMark ++ '"' :: (t ++ '"' :: after) ↔ Char.ofNat 0 ∈ t := by
    refine ⟨fun hmem => ?_, fun hmem => ?_⟩
    · by_contra hnot
      refine (hcharacters (Char.ofNat 0) ?_).2 rfl
      have hquote : Char.ofNat 0 ≠ '"' := by decide
      simpa [hnot, hquote] using hmem
    · exact List.mem_append_right _ (List.mem_cons_of_mem _ (List.mem_append_left _ hmem))
  unfold familyLiteral
  rw [String.toList_ofList, hlines]
  dsimp only
  rw [h.mark, ← List.length_append, ← List.append_assoc, List.drop_left]
  constructor
  · intro hread
    split at hread
    · cases hread
    · next hnone =>
        obtain ⟨⟨v, r⟩, hread, heq⟩ := Option.map_eq_some_iff.mp hread
        obtain rfl : v = t := String.ofList_injective heq
        rcases Literal.read_length h.closes hread with hlt | ⟨hself, hverbatim⟩
        · exact absurd (Literal.newlines_length false v) (not_le.mpr hlt)
        · rw [← hself] at hverbatim
          refine ⟨hverbatim, fun c hc => ⟨?_, ?_⟩⟩
          · rintro rfl
            rw [hself] at hc
            exact Literal.not_mem_newlines false v hc
          · rintro rfl
            exact hnone (hnull.mpr hc)
  · rintro ⟨hverbatim, hchars⟩
    have hself : Literal.newlines false t = t := Literal.newlines_eq_self fun hmem => (hchars _ hmem).1 rfl
    rw [if_neg fun hmem => (hchars _ (hnull.mp hmem)).2 rfl, hself, Literal.read_of_verbatim h.closes hverbatim]
    rfl

theorem script_ops : Script "print(\"ops-ok\")\n".toList ")\nprint(\"checks\", 3)\n".toList where
  characters := by decide
  mark t := rfl
  closes := ⟨by decide, by decide, by decide, by decide⟩

theorem script_build : Script "print(\"city-pulse-build\")\n".toList ")\nprint(\"sum\", 2 + 2)\n".toList where
  characters := by decide
  mark t := rfl
  closes := ⟨by decide, by decide, by decide, by decide⟩

theorem opsScript_iff (names : List Char → Option Char) (slug : String) :
    familyLiteral names (opsScript slug) = some slug ↔ Quotable slug.toList := by
  have heq : opsScript slug = String.ofList ("print(\"ops-ok\")\n".toList ++ familyMark ++ '"' ::
      (slug.toList ++ '"' :: ")\nprint(\"checks\", 3)\n".toList)) := by
    rw [← String.toList_inj, String.toList_ofList]
    unfold opsScript
    rw [String.toList_append, String.toList_append, List.append_assoc]
    rfl
  rw [heq, ← @familyLiteral_iff names _ _ _ script_ops, String.ofList_toList]

theorem buildScript_iff (names : List Char → Option Char) (slug : String) :
    familyLiteral names (buildScript slug) = some slug ↔ Quotable slug.toList := by
  have heq : buildScript slug = String.ofList ("print(\"city-pulse-build\")\n".toList ++ familyMark ++ '"' ::
      (slug.toList ++ '"' :: ")\nprint(\"sum\", 2 + 2)\n".toList)) := by
    rw [← String.toList_inj, String.toList_ofList]
    unfold buildScript
    rw [String.toList_append, String.toList_append, List.append_assoc]
    rfl
  rw [heq, ← @familyLiteral_iff names _ _ _ script_build, String.ofList_toList]

/-! ## Everything that is generated -/

section
variable {ν : Type*} [Numeral ν] (casing : Casing) (names : List Char → Option Char) (district familySlug : String)

/-- The district whose work is done. -/
def districtWork : String := casing.lower (Py.orElse (some district) "build")

/-- The calls that are generated for a family. -/
def generatedCalls : List (Tools.ToolCall ν) :=
  districtToolCalls casing district familySlug ++
    supportRoles.map fun role => supportNoteCall casing role familySlug district

variable (ν) in
/-- What is generated for a family is well formed. -/
structure WellFormed : Prop where
  paths : ∀ call ∈ generatedCalls (ν := ν) casing district familySlug, ∀ path,
    call.args.lookup "path" = some (.str path) → ∃ rel, sanitizeWorkspacePath path = .ok rel
  /-- The path that is run is the path written just before. -/
  runs : ∀ before path after,
    districtToolCalls (ν := ν) casing district familySlug = before ++ runPython path :: after →
      ∃ content, before.getLast? = some (workspaceWrite path content)
  json : districtWork casing district = "viz" → ∀ path content,
    workspaceWrite path content ∈ districtToolCalls (ν := ν) casing district familySlug → ∃ fields,
      Json.loads (ν := ν) content.toList = some (.obj fields) ∧
        fields.lookup "family" = some (.str (slug casing familySlug))
  literals : ∀ path content, workspaceWrite path content ∈ districtToolCalls (ν := ν) casing district familySlug →
    runPython path ∈ districtToolCalls (ν := ν) casing district familySlug →
      familyLiteral names content = some (slug casing familySlug)

/-- What is kept of a name can stand where the work of the district puts it. -/
structure Suits (work : String) (t : List Char) : Prop where
  path : StaysBelow t
  json : work = "viz" → Json.Plain t
  script : work ≠ "viz" → work ≠ "research" → Quotable t

end

section
variable {ν : Type*} {casing : Casing} {district familySlug : String}

/-- The path of a call has the slug between a folder and a suffix. -/
def HasPath (slug : String) (call : Tools.ToolCall ν) : Prop := ∀ path, call.args.lookup "path" = some (.str path) →
  ∃ folder suffix : String, Folder folder.toList ∧ Suffix suffix.toList ∧ path = folder ++ "/" ++ slug ++ suffix

theorem hasPath_workspaceWrite {slug folder suffix content : String} (hfolder : Folder folder.toList)
    (hsuffix : Suffix suffix.toList) :
    HasPath slug (workspaceWrite (ν := ν) (folder ++ "/" ++ slug ++ suffix) content) := by
  intro path hpath
  exact ⟨folder, suffix, hfolder, hsuffix, (Json.str.inj (Option.some.inj hpath)).symm⟩

theorem hasPath_runPython {slug folder suffix : String} (hfolder : Folder folder.toList)
    (hsuffix : Suffix suffix.toList) : HasPath slug (runPython (ν := ν) (folder ++ "/" ++ slug ++ suffix)) := by
  intro path hpath
  exact ⟨folder, suffix, hfolder, hsuffix, (Json.str.inj (Option.some.inj hpath)).symm⟩

theorem hasPath_vizPulse {slug district family mood : String} :
    HasPath slug (vizPulse (ν := ν) district family mood) := fun _ hpath => by cases hpath

/-- What the work of a district comes to: a write, and an event or a run of what was written. -/
theorem districtToolCalls_cases (casing : Casing) (district familySlug : String) : ∃ folder suffix content : String,
    Folder folder.toList ∧ Suffix suffix.toList ∧
      (districtToolCalls (ν := ν) casing district familySlug =
          [workspaceWrite (folder ++ "/" ++ slug casing familySlug ++ suffix) content,
            vizPulse folder (slug casing familySlug) (if folder = "viz" then "radiant" else "curious")] ∧
          (districtWork casing district = "viz" ∧ content = vizContent (slug casing familySlug) ∨
            districtWork casing district = "research") ∨
        districtToolCalls (ν := ν) casing district familySlug =
          [workspaceWrite (folder ++ "/" ++ slug casing familySlug ++ suffix) content,
            runPython (folder ++ "/" ++ slug casing familySlug ++ suffix)] ∧
          districtWork casing district ≠ "viz" ∧ districtWork casing district ≠ "research" ∧
          ∀ names, familyLiteral names content = some (slug casing familySlug) ↔
            Quotable (slug casing familySlug).toList) := by
  unfold districtToolCalls districtWork
  dsimp only
  split
  · next heq =>
      exact ⟨"viz", ".json", _, ⟨by decide, by decide, 'i', rfl, by decide, by decide⟩,
        ⟨by decide, by decide, by decide, by decide⟩, .inl ⟨rfl, .inl ⟨heq, rfl⟩⟩⟩
  · next heq =>
      exact ⟨"research", ".md", _, ⟨by decide, by decide, 'e', rfl, by decide, by decide⟩,
        ⟨by decide, by decide, by decide, by decide⟩, .inl ⟨rfl, .inr heq⟩⟩
  · next heq =>
      exact ⟨"ops", "_health.py", _, ⟨by decide, by decide, 'p', rfl, by decide, by decide⟩,
        ⟨by decide, by decide, by decide, by decide⟩, .inr ⟨rfl, by rw [heq]; decide, by rw [heq]; decide,
          fun names => opsScript_iff names _⟩⟩
  · next hviz hresearch hops =>
      exact ⟨"build", ".py", _, ⟨by decide, by decide, 'u', rfl, by decide, by decide⟩,
        ⟨by decide, by decide, by decide, by decide⟩, .inr ⟨rfl, hviz, hresearch,
          fun names => buildScript_iff names _⟩⟩

theorem hasPath_generatedCalls : ∀ call ∈ generatedCalls (ν := ν) casing district familySlug,
    HasPath (slug casing familySlug) call := by
  intro call hcall
  rcases List.mem_append.mp hcall with hcall | hcall
  · obtain ⟨folder, suffix, content, hfolder, hsuffix, ⟨hcalls, -⟩ | ⟨hcalls, -⟩⟩ :=
      districtToolCalls_cases (ν := ν) casing district familySlug
    · rw [hcalls] at hcall
      rcases List.mem_pair.mp hcall with rfl | rfl
      · exact hasPath_workspaceWrite hfolder hsuffix
      · exact hasPath_vizPulse
    · rw [hcalls] at hcall
      rcases List.mem_pair.mp hcall with rfl | rfl
      · exact hasPath_workspaceWrite hfolder hsuffix
      · exact hasPath_runPython hfolder hsuffix
  · obtain ⟨role, hrole, rfl⟩ := List.mem_map.mp hcall
    have hsuffix : ∀ role ∈ supportRoles, Suffix ("_" ++ role ++ ".md").toList := by
      intro role hrole
      have hall : ∀ role ∈ supportRoles, (∀ c ∈ ("_" ++ role ++ ".md").toList, c ≠ '/' ∧ c ≠ Char.ofNat 92) ∧
          ("_" ++ role ++ ".md").toList.head? ≠ some '~' ∧
          (∀ c ∈ ("_" ++ role ++ ".md").toList.getLast?, Py.isSpace c = false) ∧
          3 ≤ ("_" ++ role ++ ".md").toList.length := by decide
      obtain ⟨hnoSlash, hhead, hlast, hlength⟩ := hall role hrole
      exact ⟨hnoSlash, hhead, hlast, hlength⟩
    have hpath : "notes/" ++ slug casing familySlug ++ "_" ++ role ++ ".md" =
        "notes" ++ "/" ++ slug casing familySlug ++ ("_" ++ role ++ ".md") := by
      rw [String.append_assoc, String.append_assoc, String.append_assoc]
      rfl
    unfold supportNoteCall
    dsimp only
    rw [hpath]
    exact hasPath_workspaceWrite ⟨by decide, by decide, 'o', rfl, by decide, by decide⟩ (hsuffix role hrole)

/-- The paths are accepted exactly if the slug leads neither up nor home. -/
theorem paths_iff : (∀ call ∈ generatedCalls (ν := ν) casing district familySlug, ∀ path,
    call.args.lookup "path" = some (.str path) → ∃ rel, sanitizeWorkspacePath path = .ok rel) ↔
      StaysBelow (slug casing familySlug).toList := by
  constructor
  · intro h
    have hcall : supportNoteCall casing "analyst" familySlug district ∈
        generatedCalls (ν := ν) casing district familySlug :=
      List.mem_append_right _ (List.mem_map.mpr ⟨"analyst", by decide, rfl⟩)
    obtain ⟨folder, suffix, hfolder, hsuffix, hpath⟩ := hasPath_generatedCalls _ hcall _ rfl
    have haccepted := h _ hcall _ rfl
    rw [hpath] at haccepted
    exact (sanitize_iff hfolder hsuffix).mp haccepted
  · intro h call hcall path hpath
    obtain ⟨folder, suffix, hfolder, hsuffix, rfl⟩ := hasPath_generatedCalls call hcall path hpath
    exact (sanitize_iff hfolder hsuffix).mpr h

theorem workspaceWrite_inj {path path' content content' : String}
    (h : workspaceWrite (ν := ν) path content = workspaceWrite path' content') : path = path' ∧ content = content' := by
  unfold workspaceWrite at h
  simpa using h

theorem workspaceWrite_ne {path content : String} {call : Tools.ToolCall ν} (h : call.name ≠ "workspace_write") :
    workspaceWrite path content ≠ call := fun heq => h (heq ▸ rfl)

/-- What is run is what was written before. -/
theorem runs_written (before : List (Tools.ToolCall ν)) (path : String) (after : List (Tools.ToolCall ν))
    (h : districtToolCalls casing district familySlug = before ++ runPython path :: after) :
    ∃ content, before.getLast? = some (workspaceWrite path content) := by
  obtain ⟨folder, suffix, content, -, -, ⟨hcalls, -⟩ | ⟨hcalls, -⟩⟩ :=
    districtToolCalls_cases (ν := ν) casing district familySlug
  · have hmem : runPython path ∈ districtToolCalls (ν := ν) casing district familySlug := by
      rw [h]
      exact List.mem_append_right _ List.mem_cons_self
    rw [hcalls] at hmem
    rcases List.mem_pair.mp hmem with heq | heq
    · exact absurd heq.symm (workspaceWrite_ne (by decide : "run_python" ≠ "workspace_write"))
    · exact absurd (congrArg Tools.Call.name heq) (by decide : "run_python" ≠ "emit_viz_event")
  · rw [hcalls] at h
    match before, h with
    | [], h => exact absurd (List.cons.inj h).1 (workspaceWrite_ne (by decide : "run_python" ≠ "workspace_write"))
    | [b], h =>
        obtain ⟨rfl, hrest⟩ := List.cons.inj h
        have hpath : folder ++ "/" ++ slug casing familySlug ++ suffix = path := by
          simpa [runPython] using (List.cons.inj hrest).1
        exact ⟨content, by rw [← hpath]; rfl⟩
    | b :: b' :: before, h =>
        have hlength := congrArg List.length h
        simp at hlength

/-- **What is generated is well formed** exactly if the slug can stand where it is put. -/
theorem wellFormed_iff_slug [Numeral ν] (names : List Char → Option Char) :
    WellFormed ν casing names district familySlug ↔
      Suits (districtWork casing district) (slug casing familySlug).toList := by
  obtain ⟨folder, suffix, content, -, -, hwork⟩ := districtToolCalls_cases (ν := ν) casing district familySlug
  -- there is one write
  have hwrite {path content'} (hmem : workspaceWrite path content' ∈
      districtToolCalls (ν := ν) casing district familySlug) : content' = content := by
    rcases hwork with ⟨hcalls, -⟩ | ⟨hcalls, -⟩
    all_goals
      rw [hcalls] at hmem
      rcases List.mem_pair.mp hmem with heq | heq
    · exact (workspaceWrite_inj heq).2
    · exact absurd heq (workspaceWrite_ne (by decide : "emit_viz_event" ≠ "workspace_write"))
    · exact (workspaceWrite_inj heq).2
    · exact absurd heq (workspaceWrite_ne (by decide : "run_python" ≠ "workspace_write"))
  constructor
  · intro h
    refine ⟨paths_iff.mp h.paths, fun hviz => ?_, fun hviz hresearch => ?_⟩
    · rcases hwork with ⟨hcalls, ⟨-, rfl⟩ | hresearch⟩ | ⟨-, hnot, -⟩
      · exact (vizContent_iff _).mp (h.json hviz _ _ (hcalls ▸ List.mem_cons_self))
      · exact absurd (hviz.symm.trans hresearch) (by decide)
      · exact absurd hviz hnot
    · rcases hwork with ⟨-, ⟨hviz', -⟩ | hresearch'⟩ | ⟨hcalls, -, -, hliteral⟩
      · exact absurd hviz' hviz
      · exact absurd hresearch' hresearch
      · refine (hliteral names).mp (h.literals _ _ (hcalls ▸ List.mem_cons_self) ?_)
        rw [hcalls]
        exact List.mem_cons_of_mem _ (List.mem_singleton.mpr rfl)
  · intro h
    refine ⟨paths_iff.mpr h.path, runs_written, fun hviz path content' hmem => ?_, fun path content' hmem hrun => ?_⟩
    · rcases hwork with ⟨-, ⟨-, rfl⟩ | hresearch⟩ | ⟨-, hnot, -⟩
      · rw [hwrite hmem]
        exact (vizContent_iff _).mpr (h.json hviz)
      · exact absurd (hviz.symm.trans hresearch) (by decide)
      · exact absurd hviz hnot
    · rcases hwork with ⟨hcalls, -⟩ | ⟨-, hviz, hresearch, hliteral⟩
      · rw [hcalls] at hrun
        rcases List.mem_pair.mp hrun with heq | heq
        · exact absurd heq.symm (workspaceWrite_ne (by decide : "run_python" ≠ "workspace_write"))
        · exact absurd (congrArg Tools.Call.name heq) (by decide : "run_python" ≠ "emit_viz_event")
      · rw [hwrite hmem]
        exact (hliteral names).mpr (h.script hviz hresearch)

/-- A text of small letters suits all work. -/
theorem suits_of_letters {t : List Char} (h : ∀ c ∈ t, 'a' ≤ c ∧ c ≤ 'z') (work : String) : Suits work t := by
  have hnot {d : Char} (hd : ¬ ('a' ≤ d ∧ d ≤ 'z')) : ∀ c ∈ t, c ≠ d := by
    rintro c hc rfl
    exact hd (h c hc)
  have hslash := hnot (d := '/') (by decide)
  have hparts : parts (slashes t) = [t] := by
    rw [slashes_eq_self fun c hc => ⟨hslash c hc, hnot (by decide) c hc⟩]
    exact List.splitOn_eq_singleton fun hmem => hslash _ hmem rfl
  refine ⟨⟨?_, ?_⟩, fun _ c hc => ⟨hnot (by decide) c hc, hnot (by decide) c hc, ?_⟩, fun _ _ => ⟨⟨?_, ?_⟩, ?_⟩⟩
  · rw [hparts]
    exact List.not_mem_nil
  · rw [hparts]
    intro part hpart hhead
    rw [List.mem_singleton.mp hpart] at hhead
    exact hnot (by decide) _ (List.mem_of_head? hhead) rfl
  · exact le_trans (by decide) (Char.le_def.mp (h c hc).1)
  · exact fun u hu => absurd rfl (hnot (by decide) '\\' (hu.subset List.mem_cons_self))
  · exact fun c hc => ⟨hnot (by decide) c hc, hnot (by decide) c hc⟩
  · exact fun c hc => ⟨hnot (by decide) c hc, hnot (by decide) c hc⟩

/-- **The work of a pulse is well formed**: exactly if what is kept of the name can stand where it is put. -/
theorem wellFormed_iff [Numeral ν] (casing : Casing) (names : List Char → Option Char)
    (name namePrefix district : String) :
    WellFormed ν casing names district (namePrefix ++ "-" ++ name) ↔
      Suits (districtWork casing district) (keptText casing (namePrefix ++ "-" ++ name)).toList := by
  rw [wellFormed_iff_slug]
  unfold slug Py.orElse
  dsimp only
  split
  · next hempty =>
      rw [hempty]
      exact iff_of_true (suits_of_letters (by decide) _) (suits_of_letters (by decide) _)
  · exact Iff.rfl

/-- **A family that is called O"Brien** writes JSON that is none. -/
theorem generated_not_json : ¬ ∀ (names : List Char → Option Char) (name namePrefix district : String),
    1 ≤ name.length → name.length ≤ 255 → 1 ≤ namePrefix.length → namePrefix.length ≤ 32 →
      WellFormed ℤ asciiCasing names district (namePrefix ++ "-" ++ name) := by
  intro hclaim
  have hformed := hclaim (fun _ => none) "O\"Brien" "pulse" "viz" (by decide) (by decide) (by decide)
    (by decide)
  have hplain := ((wellFormed_iff_slug _).mp hformed).json (by decide +kernel)
  exact absurd hplain (by decide +kernel)

end

end Persola.City.Pulse
