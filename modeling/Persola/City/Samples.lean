import Persola.City.Commons
import Persola.City.Export
import Persola.Lib.Utf8

/-!
# `City.Samples` — the artifacts of the Austin pack

`export_austin_pack` takes up to 20 artifacts of each of the three newest jobs of every family. A content that is too
long is cut after so many bytes of its UTF-8 encoding and decoded again: what is exported is the longest part of it from
the start, in whole characters, that fits.
-/

namespace Persola.City

open Agent (AgentId)

/-- An entry of `artifacts_sample`. -/
structure ArtifactSample where
  jobId : JobId
  familyId : FamilyId
  path : String
  version : ℕ
  content : String
  truncated : Bool
  createdByAgentId : Option AgentId
deriving DecidableEq

/-- The entry of an artifact of a job. -/
def artifactSample (maxArtifactBytes : ℕ) (familyId : FamilyId) (job : CityJobModel) (a : WorkspaceArtifactModel) :
    ArtifactSample :=
  -- a.content or ""
  let content := a.content.getD ""
  let bytes := Utf8.encode content.toList
  let (content, truncated) :=
    if maxArtifactBytes < bytes.length then (String.ofList (Utf8.decodeIgnore (bytes.take maxArtifactBytes)), true)
    else (content, false)
  { jobId := job.id, familyId, path := a.path, version := a.version, content, truncated,
    createdByAgentId := a.createdByAgentId }

/-- `artifacts_sample` of `export_austin_pack`. -/
def Commons.artifactsSample (db : Commons) (order : List MemberId) (includeArtifacts : Bool) (maxArtifactBytes : ℕ) :
    List ArtifactSample :=
  if includeArtifacts then
    (db.citySnapshot order).flatMap fun (family, _) => (db.listForFamily family.id 3).flatMap fun job =>
      (db.listArtifacts job.id 20).map (artifactSample maxArtifactBytes family.id job)
  else []

/-- What an entry of the pack shows of an artifact. -/
structure ArtifactSample.Shows (maxArtifactBytes : ℕ) (a : WorkspaceArtifactModel) (sample : ArtifactSample) : Prop where
  path : sample.path = a.path
  version : sample.version = a.version
  createdByAgentId : sample.createdByAgentId = a.createdByAgentId
  content : LongestPrefix (fun cs => (Utf8.encode cs).length ≤ maxArtifactBytes) (a.content.getD "").toList
    sample.content.toList
  truncated : sample.truncated = true ↔ sample.content ≠ a.content.getD ""

variable {maxArtifactBytes : ℕ}

theorem artifactSample_of_fits (familyId : FamilyId) (job : CityJobModel) {a : WorkspaceArtifactModel}
    (h : (Utf8.encode (a.content.getD "").toList).length ≤ maxArtifactBytes) :
    (artifactSample maxArtifactBytes familyId job a).content = a.content.getD "" ∧
      (artifactSample maxArtifactBytes familyId job a).truncated = false := by
  simp only [artifactSample, if_neg (Nat.not_lt_of_le h), and_self]

theorem artifactSample_of_long (familyId : FamilyId) (job : CityJobModel) {a : WorkspaceArtifactModel}
    (h : maxArtifactBytes < (Utf8.encode (a.content.getD "").toList).length) :
    (artifactSample maxArtifactBytes familyId job a).content.toList =
        cut String.utf8EncodeChar maxArtifactBytes (a.content.getD "").toList ∧
      (artifactSample maxArtifactBytes familyId job a).truncated = true := by
  simp only [artifactSample, if_pos h, and_true]
  rw [String.toList_ofList, Utf8.decodeIgnore_take]

/-- The entry of an artifact shows as much of its content as fits, and says whether that is all. -/
theorem artifactSample_shows (maxArtifactBytes : ℕ) (familyId : FamilyId) (job : CityJobModel)
    (a : WorkspaceArtifactModel) :
    (artifactSample maxArtifactBytes familyId job a).Shows maxArtifactBytes a := by
  rcases Nat.lt_or_ge maxArtifactBytes (Utf8.encode (a.content.getD "").toList).length with hlong | hfits
  · obtain ⟨hcontent, htruncated⟩ := artifactSample_of_long familyId job hlong
    have hlongest := longest_cut String.utf8EncodeChar maxArtifactBytes (a.content.getD "").toList
    rw [← hcontent] at hlongest
    refine ⟨rfl, rfl, rfl, hlongest, iff_of_true htruncated fun heq => ?_⟩
    -- what fits is not the content that does not
    have hholds :
        (Utf8.encode (artifactSample maxArtifactBytes familyId job a).content.toList).length ≤ maxArtifactBytes :=
      hlongest.holds
    rw [heq] at hholds
    exact absurd hlong (Nat.not_lt_of_le hholds)
  · obtain ⟨hcontent, htruncated⟩ := artifactSample_of_fits familyId job hfits
    refine ⟨rfl, rfl, rfl, ?_, iff_of_false (by rw [htruncated]; exact Bool.false_ne_true) (fun hne => hne hcontent)⟩
    rw [hcontent]
    exact ⟨List.prefix_rfl, hfits, fun zs hzs _ => hzs⟩

/-- What the pack shows: the families of the snapshot, of each the three newest jobs, and of each of these the first 20
artifacts in the order of their paths, the newest version first. -/
structure Commons.Sampled (db : Commons) (order : List MemberId)
    (pack : List (FamilyModel × List (CityJobModel × List WorkspaceArtifactModel))) : Prop where
  families : pack.map Prod.fst = (db.citySnapshot order).map Prod.fst
  jobs : ∀ f ∈ pack, Select.Leading (fun i j => j.createdAt ≤ i.createdAt) 3
    (db.jobs.filter (·.familyId = f.1.id)) (f.2.map Prod.fst)
  artifacts : ∀ f ∈ pack, ∀ j ∈ f.2, Select.Leading (fun a b => Commons.listing a ≤ Commons.listing b) 20
    (db.artifacts.filter (·.jobId = j.1.id)) j.2

/-- The artifacts of what is shown, each with its family and its job. -/
def sources (pack : List (FamilyModel × List (CityJobModel × List WorkspaceArtifactModel))) :
    List (FamilyId × JobId × WorkspaceArtifactModel) :=
  pack.flatMap fun (family, jobs) => jobs.flatMap fun (job, artifacts) => artifacts.map fun a => (family.id, job.id, a)

/-- The loops of `artifacts_sample`, before the contents are cut. -/
def Commons.sampled (db : Commons) (order : List MemberId) :
    List (FamilyModel × List (CityJobModel × List WorkspaceArtifactModel)) :=
  (db.citySnapshot order).map fun (family, _) =>
    (family, (db.listForFamily family.id 3).map fun job => (job, db.listArtifacts job.id 20))

theorem sampled_spec (db : Commons) (order : List MemberId) : db.Sampled order (db.sampled order) where
  families := by
    unfold Commons.sampled
    rw [List.map_map]
    rfl
  jobs f hf := by
    obtain ⟨⟨family, members⟩, -, rfl⟩ := List.mem_map.mp hf
    have hjobs : ((db.listForFamily family.id 3).map fun job => (job, db.listArtifacts job.id 20)).map Prod.fst =
        db.listForFamily family.id 3 := by
      rw [List.map_map]
      exact List.map_id _
    dsimp only
    rw [hjobs]
    exact Select.leading_orderByDesc _ _ _
  artifacts f hf j hj := by
    obtain ⟨⟨family, members⟩, -, rfl⟩ := List.mem_map.mp hf
    obtain ⟨job, -, rfl⟩ := List.mem_map.mp hj
    exact Select.leading_orderBy _ _ _

/-- The entries, one for each source and in the same order. -/
theorem artifactsSample_eq (db : Commons) (order : List MemberId) (maxArtifactBytes : ℕ) :
    List.Forall₂ (fun source sample => sample.familyId = source.1 ∧ sample.jobId = source.2.1 ∧
        sample.Shows maxArtifactBytes source.2.2)
      (sources (db.sampled order)) (db.artifactsSample order true maxArtifactBytes) := by
  unfold sources Commons.sampled Commons.artifactsSample
  rw [if_pos rfl, List.flatMap_map]
  refine List.rel_flatMap (R := Eq) (List.forall₂_refl _) ?_
  rintro ⟨family, members⟩ _ rfl
  dsimp only
  rw [List.flatMap_map]
  refine List.rel_flatMap (R := Eq) (List.forall₂_refl _) ?_
  rintro job _ rfl
  rw [List.forall₂_map_left_iff, List.forall₂_map_right_iff]
  exact List.forall₂_same.mpr fun a _ => ⟨rfl, rfl, artifactSample_shows maxArtifactBytes family.id job a⟩

/-- **The pack has the longest part of a content that fits.** Whatever the content of an artifact and the limit, its
entry has the longest prefix of whole characters whose UTF-8 encoding fits, and is marked as truncated exactly if that
is not all of it. The pack has such an entry, with family and job, for each of the artifacts it is to show, in their order, and
no other one; without `include_artifacts` it has none. -/
theorem artifactsSample_longest (maxArtifactBytes : ℕ) :
    (∀ familyId job a, (artifactSample maxArtifactBytes familyId job a).Shows maxArtifactBytes a) ∧
    ∀ (db : Commons) order, db.artifactsSample order false maxArtifactBytes = [] ∧
      ∃ pack, db.Sampled order pack ∧
        List.Forall₂ (fun source sample => sample.familyId = source.1 ∧ sample.jobId = source.2.1 ∧
            sample.Shows maxArtifactBytes source.2.2)
          (sources pack) (db.artifactsSample order true maxArtifactBytes) :=
  ⟨artifactSample_shows maxArtifactBytes, fun db order =>
    ⟨rfl, db.sampled order, sampled_spec db order, artifactsSample_eq db order maxArtifactBytes⟩⟩

/-- A family with a job, and a price list among its files. -/
def prices : Commons where
  families := [
    { id := 1, name := "Moss", description := none, defaultDistrict := .build, policy := {}, updatedAt := 0 }]
  members := []
  agents := []
  personas := []
  jobs := [{ id := 2, familyId := 1, district := .build, status := .running, createdAt := 0 }]
  fresh := 3
  artifacts := [
    { jobId := 2, familyId := 1, path := "prices.txt", content := some "é 5€", sizeBytes := 7, version := 1,
      createdByAgentId := none }]
  runs := []
  events := []

/-- Its entry, if six bytes may be shown: they end within the last character. -/
def pricesSample : ArtifactSample where
  jobId := 2
  familyId := 1
  path := "prices.txt"
  version := 1
  content := "é 5"
  truncated := true
  createdByAgentId := none

/-- The pack has this entry, and it is the one it is to have. -/
theorem artifactsSample_priceList : prices.artifactsSample [] true 6 = [pricesSample] ∧
    ∃ pack, prices.Sampled [] pack ∧
      List.Forall₂ (fun source sample => sample.familyId = source.1 ∧ sample.jobId = source.2.1 ∧
        sample.Shows 6 source.2.2) (sources pack) [pricesSample] := by
  have hentries : prices.artifactsSample [] true 6 = [pricesSample] := by decide +kernel
  obtain ⟨-, hpack⟩ := (artifactsSample_longest 6).2 prices []
  rw [hentries] at hpack
  exact ⟨hentries, hpack⟩

end Persola.City
