import Persola.Lib.Py
import Persola.Lib.Select
import Persola.Lib.Table
import Persola.Lib.Trail
import Mathlib.Data.String.Basic

/-!
# `Workqueue.OrgChart` — who reports to whom

The chart of a team is a table of roles, each with at most one manager, that users edit: managers may be missing and
reporting lines may close in a circle. `resolve_chain` follows them in a loop and stops at the first role that it has
seen; the chain is a trail (`Lib.Trail`) that cannot go on (`resolveChain_total`).
-/

namespace Persola.Workqueue

/-- `OrgNode`. -/
structure OrgNode where
  role : String
  title : String
  reportsTo : Option String := none
  email : Option String := none
  active : Bool := true
deriving DecidableEq

/-- A row of `org_nodes`. -/
structure OrgNodeModel extends OrgNode where
  teamId : String
deriving DecidableEq

namespace OrgChart

/-! ## Nodes of a team -/

/-- `uq_org_node_team_role`. -/
abbrev key (row : OrgNodeModel) : String × String := (row.teamId, row.role)

/-- The table `org_nodes`. -/
abbrev Nodes := Table key

/-- `list_for_team`. -/
def listForTeam (t : Nodes) (team : String) : List OrgNodeModel :=
  Select.orderBy (fun row => row.role) (t.rows.filter (·.teamId = team))

/-- `upsert`. -/
def upsert (t : Nodes) (team : String) (node : OrgNode) : Nodes :=
  match h : t.get? (team, node.role) with
  | none => t.insert { node with teamId := team } h
  | some _ => t.modify (team, node.role)
      (fun row => { row with
        title := node.title, reportsTo := node.reportsTo, email := node.email, active := node.active }) fun _ => rfl

/-- The roles of `BUILTIN_ARCHETYPES` and their names. -/
def builtinArchetypes : List (String × String) :=
  [("coordinator", "Coordinator"), ("analyst", "Analyst"), ("creative", "Creative"), ("executor", "Executor"),
    ("empath", "Empath")]

/-- The node of a role that a team starts with. -/
def defaultNode (archetype : String × String) : OrgNode where
  role := archetype.1
  title := archetype.2
  reportsTo := if archetype.1 = "coordinator" then none else some "coordinator"
  email := some (archetype.1 ++ "@team.persola.local")

/-- `_ensure_seeded`. -/
def ensureSeeded (t : Nodes) (team : String) : Nodes :=
  let existing := (listForTeam t team).map (·.role)
  builtinArchetypes.foldl
    (fun t archetype => if archetype.1 ∈ existing then t else upsert t team (defaultNode archetype)) t

/-- `_nodes`: the nodes of a team, and the table after the missing ones are there. -/
def nodes (t : Nodes) (team : String) : List OrgNode × Nodes :=
  let t := ensureSeeded t team
  ((listForTeam t team).map (·.toOrgNode), t)

/-! ## Seeding -/

section
variable {t : Nodes} {team : String} {node : OrgNode} {k : String × String}

theorem of_get? {row : OrgNodeModel} {role : String} (h : t.get? (team, role) = some row) :
    row.teamId = team ∧ row.role = role := by
  have hkey : key row = (team, role) := Table.key_of_get? h
  exact Prod.mk.inj hkey

theorem get?_upsert : (upsert t team node).get? k =
    if k = (team, node.role) then some { node with teamId := team } else t.get? k := by
  unfold upsert
  split
  · rename_i h
    rw [Table.get?_insert]
    exact if_congr eq_comm rfl rfl
  · rename_i row h
    obtain ⟨hteam, hrole⟩ := of_get? h
    rw [Table.get?_modify]
    split
    · rename_i hk
      rw [hk, h, Option.map_some, hteam, hrole]
    · rfl

theorem mem_listForTeam {row : OrgNodeModel} : row ∈ listForTeam t team ↔ t.get? (team, row.role) = some row := by
  rw [listForTeam, Select.mem_orderBy, List.mem_filter, decide_eq_true_eq]
  constructor
  · rintro ⟨hrow, rfl⟩
    exact Table.get?_key hrow
  · exact fun h => ⟨List.mem_of_find?_eq_some h, (of_get? h).1⟩

/-- **Seeding adds the default nodes that are missing** and leaves every other node, of any team, as it is. -/
theorem get?_ensureSeeded : (ensureSeeded t team).get? k = (t.get? k).or
    (if k.1 = team then (builtinArchetypes.find? (·.1 = k.2)).map fun a => { defaultNode a with teamId := team }
      else none) := by
  have hfold (existing : List String) (l : List (String × String)) (hl : (l.map Prod.fst).Nodup) (t : Nodes) :
      (l.foldl (fun t a => if a.1 ∈ existing then t else upsert t team (defaultNode a)) t).get? k =
        if k.1 = team ∧ k.2 ∉ existing then
          ((l.find? (·.1 = k.2)).map fun a => { defaultNode a with teamId := team }).or (t.get? k)
        else t.get? k := by
    induction l generalizing t with
    | nil => simp
    | cons a l ih =>
        obtain ⟨hnew, hl⟩ := List.nodup_cons.mp hl
        rw [List.foldl_cons, ih hl]
        by_cases ha : a.1 = k.2
        · have hnone : l.find? (·.1 = k.2) = none := by
            refine List.find?_eq_none.mpr fun a' ha' heq => hnew ?_
            exact ha ▸ of_decide_eq_true heq ▸ List.mem_map_of_mem ha'
          rw [List.find?_cons_of_pos (by simpa using ha), hnone, ha]
          by_cases hk : k.1 = team ∧ k.2 ∉ existing
          · have hkey : k = (team, (defaultNode a).role) := Prod.ext hk.1 ha.symm
            rw [if_pos hk, if_pos hk, if_neg hk.2, get?_upsert, if_pos hkey]
            rfl
          · rw [if_neg hk, if_neg hk]
            split
            · rfl
            · rename_i hmem
              rw [get?_upsert, if_neg]
              exact fun hkey => hk ⟨congrArg Prod.fst hkey, hmem⟩
        · have hkey : k ≠ (team, (defaultNode a).role) := fun hkey => ha (congrArg Prod.snd hkey).symm
          have hsame : (if a.1 ∈ existing then t else upsert t team (defaultNode a)).get? k = t.get? k := by
            split
            · rfl
            · rw [get?_upsert, if_neg hkey]
          rw [List.find?_cons_of_neg (by simpa using ha), hsame]
  have hexisting : k.2 ∈ (listForTeam t team).map (·.role) ↔ t.get? (team, k.2) ≠ none := by
    rw [List.mem_map, Option.ne_none_iff_exists']
    constructor
    · rintro ⟨row, hrow, hrole⟩
      exact ⟨row, hrole ▸ mem_listForTeam.mp hrow⟩
    · rintro ⟨row, hrow⟩
      have hrole : row.role = k.2 := (of_get? hrow).2
      exact ⟨row, mem_listForTeam.mpr (hrole ▸ hrow), hrole⟩
  unfold ensureSeeded
  rw [hfold _ _ (by decide)]
  simp only [hexisting, not_ne_iff]
  by_cases hteam : k.1 = team
  · obtain rfl := hteam
    rw [if_pos rfl]
    cases t.get? (k.1, k.2) with
    | none => simp
    | some row => simp
  · rw [if_neg (fun h => hteam h.1), if_neg hteam, Option.or_none]

/-- The nodes that `resolve_chain` sees. -/
theorem mem_nodes : node ∈ (nodes t team).1 ↔
    (ensureSeeded t team).get? (team, node.role) = some { node with teamId := team } := by
  unfold nodes
  dsimp only
  rw [List.mem_map]
  constructor
  · rintro ⟨row, hrow, rfl⟩
    rw [mem_listForTeam] at hrow
    obtain rfl := (of_get? hrow).1
    exact hrow
  · exact fun h => ⟨{ node with teamId := team }, mem_listForTeam.mpr h, rfl⟩

end

/-! ## The chain -/

/-- The dictionary of the nodes by role. -/
def chart (nodes : List OrgNode) : List (String × OrgNode) := Py.assign [] (nodes.map fun node => (node.role, node))

/-- The variables of the loop of `resolve_chain`. -/
structure Walk where
  chain : List String
  seen : List String
  current : Option OrgNode

/-- The variables before the loop. -/
def Walk.start (nodes : List OrgNode) (role : String) : Walk := ⟨[role], [role], Py.getItem (chart nodes) role⟩

/-- The body of the loop, or `none` when its condition fails. -/
def Walk.advance (nodes : List OrgNode) (w : Walk) : Option Walk := do
  let current ← w.current
  -- an empty key is false like a missing one
  let manager ← current.reportsTo.filter (· ≠ "")
  guard (manager ∉ w.seen)
  pure ⟨w.chain ++ [manager], w.seen ++ [manager], Py.getItem (chart nodes) manager⟩

/-- What `resolve_chain` does with the nodes. -/
def chainOf (fuel : ℕ) (nodes : List OrgNode) (role : String) : Option (List String) :=
  (Trail.loop (Walk.advance nodes) fuel (Walk.start nodes role)).map Walk.chain

/-- `resolve_chain`: the chain, and the table afterwards. -/
def resolveChain (fuel : ℕ) (t : Nodes) (team role : String) : Option (List String) × Nodes :=
  let (nodes, t) := nodes t team
  (chainOf fuel nodes role, t)

/-! ## Reporting lines -/

variable {nodes : List OrgNode} {a b role : String} {w w' : Walk}

/-- `a` reports to `b`. -/
def ReportsTo (nodes : List OrgNode) (a b : String) : Prop :=
  ∃ node ∈ nodes, node.role = a ∧ node.reportsTo = some b

/-- There is nobody for `a` to report to in the chart, or nobody new: `a` is not in the chart, has no manager, or one that
is in the chain. -/
def EndsAt (nodes : List OrgNode) (chain : List String) (a : String) : Prop :=
  (∀ node ∈ nodes, node.role ≠ a) ∨
    ∃ node ∈ nodes, node.role = a ∧
      (node.reportsTo = none ∨ node.reportsTo = some "" ∨ ∃ b ∈ chain, node.reportsTo = some b)

/-- What is expected of the chain of a role. -/
structure Resolved (nodes : List OrgNode) (role : String) (chain : List String) : Prop where
  head : chain.head? = some role
  nodup : chain.Nodup
  linked : chain.IsChain (ReportsTo nodes)
  ends : ∀ a, chain.getLast? = some a → EndsAt nodes chain a

/-- The manager the loop finds. -/
def manager (nodes : List OrgNode) (a : String) : Option String :=
  (Py.getItem (chart nodes) a).bind fun node => node.reportsTo.filter (· ≠ "")

theorem mem_of_chart {node : OrgNode} (h : Py.getItem (chart nodes) a = some node) : node ∈ nodes ∧ node.role = a := by
  obtain ⟨e, he, rfl⟩ := Option.map_eq_some_iff.mp h
  have hrole : e.1 = a := by simpa using List.find?_some he
  rcases Py.mem_assign (List.mem_of_find?_eq_some he) with hnil | hmem
  · exact absurd hnil List.not_mem_nil
  · obtain ⟨node, hnode, rfl⟩ := List.mem_map.mp hmem
    exact ⟨hnode, hrole⟩

theorem not_mem_of_chart (h : Py.getItem (chart nodes) a = none) : ∀ node ∈ nodes, node.role ≠ a := by
  intro node hnode hrole
  rw [chart, Py.getItem_assign, Option.or_eq_none_iff, Option.map_eq_none_iff, List.getLast?_eq_none_iff] at h
  have hmem : (node.role, node) ∈ (nodes.map fun node => (node.role, node)).filter (·.1 = a) :=
    List.mem_filter.mpr ⟨List.mem_map_of_mem hnode, decide_eq_true hrole⟩
  rw [h.1] at hmem
  exact absurd hmem List.not_mem_nil

theorem reportsTo_of_manager (h : manager nodes a = some b) : ReportsTo nodes a b := by
  obtain ⟨node, hnode, hb⟩ := Option.bind_eq_some_iff.mp h
  obtain ⟨hmem, hrole⟩ := mem_of_chart hnode
  exact ⟨node, hmem, hrole, (Option.filter_eq_some_iff.mp hb).1⟩

theorem endsAt_of_manager {chain : List String} (h : ∀ b, manager nodes a = some b → b ∈ chain) :
    EndsAt nodes chain a := by
  cases hnode : Py.getItem (chart nodes) a with
  | none => exact .inl (not_mem_of_chart hnode)
  | some node =>
      obtain ⟨hmem, hrole⟩ := mem_of_chart hnode
      refine .inr ⟨node, hmem, hrole, ?_⟩
      cases hmanager : node.reportsTo with
      | none => exact .inl rfl
      | some b =>
          by_cases hb : b = ""
          · exact .inr (.inl (congrArg some hb))
          · refine .inr (.inr ⟨b, h b ?_, rfl⟩)
            rw [manager, hnode, Option.bind_some, hmanager]
            exact Option.filter_eq_some_iff.mpr ⟨rfl, decide_eq_true hb⟩

/-! ## The loop -/

/-- The chain is a trail from the role, all of it is seen, and the current node is that of its end. -/
structure Walk.Inv (nodes : List OrgNode) (role : String) (w : Walk) : Prop where
  trail : Trail.IsTrail (manager nodes) w.chain
  head : w.chain.head? = some role
  seen : w.seen = w.chain
  current : ∃ a, w.chain.getLast? = some a ∧ w.current = Py.getItem (chart nodes) a

theorem Walk.Inv.start (nodes : List OrgNode) (role : String) : (Walk.start nodes role).Inv nodes role :=
  ⟨Trail.IsTrail.singleton _ role, rfl, rfl, role, rfl, rfl⟩

/-- The loop goes on to a manager that is new. -/
theorem Walk.advance_eq_some_iff : w.advance nodes = some w' ↔
    ∃ b, (w.current.bind fun node => node.reportsTo.filter (· ≠ "")) = some b ∧ b ∉ w.seen ∧
      w' = ⟨w.chain ++ [b], w.seen ++ [b], Py.getItem (chart nodes) b⟩ := by
  unfold Walk.advance
  cases w.current with
  | none => simp
  | some node =>
      simp only [Option.bind_eq_bind, Option.bind_some]
      cases node.reportsTo.filter (· ≠ "") with
      | none => simp
      | some b => by_cases hb : b ∈ w.seen <;> simp [hb, guard, eq_comm]

theorem Walk.Inv.advance (h : w.Inv nodes role) (hstep : w.advance nodes = some w') :
    w'.Inv nodes role ∧ w'.chain.length = w.chain.length + 1 := by
  obtain ⟨b, hb, hnew, rfl⟩ := Walk.advance_eq_some_iff.mp hstep
  obtain ⟨a, hlast, hcurrent⟩ := h.current
  rw [hcurrent] at hb
  rw [h.seen] at hnew
  refine ⟨⟨h.trail.concat hlast hb hnew, ?_, by rw [h.seen], b, List.getLast?_concat, rfl⟩, List.length_append⟩
  rw [List.head?_append, h.head]
  rfl

/-- Where the loop stops the chain cannot go on. -/
theorem Walk.Inv.stop (h : w.Inv nodes role) (hstop : w.advance nodes = none) (ha : w.chain.getLast? = some a) :
    EndsAt nodes w.chain a := by
  refine endsAt_of_manager fun b hb => ?_
  by_contra hnew
  obtain ⟨a', hlast, hcurrent⟩ := h.current
  obtain rfl : a = a' := Option.some.inj (ha.symm.trans hlast)
  have hgo := (@Walk.advance_eq_some_iff nodes _ _).mpr ⟨b, hcurrent ▸ hb, h.seen ▸ hnew, rfl⟩
  rw [hstop] at hgo
  cases hgo

theorem Walk.Inv.length_le (h : w.Inv nodes role) : w.chain.length ≤ nodes.length + 1 := by
  have hle := h.trail.length_le (nodes.map (·.role)) fun a b hab => by
    obtain ⟨node, hnode, rfl, -⟩ := reportsTo_of_manager hab
    exact List.mem_map_of_mem hnode
  rwa [List.length_map] at hle

theorem chainOf_total (nodes : List OrgNode) (role : String) :
    ∃ chain, (∀ fuel, nodes.length + 1 < fuel → chainOf fuel nodes role = some chain) ∧ Resolved nodes role chain := by
  obtain ⟨w, hw, hstop, hrun⟩ := Trail.loop_total (Walk.advance nodes) (Walk.Inv nodes role)
    (fun w => nodes.length + 2 - w.chain.length) (fun w w' hw hstep => by
      obtain ⟨hw', hlength⟩ := hw.advance hstep
      have hle := hw'.length_le
      exact ⟨hw', by omega⟩) (Walk.Inv.start nodes role)
  refine ⟨w.chain, fun fuel hfuel => ?_, hw.head, hw.trail.nodup, hw.trail.linked.imp fun a b => reportsTo_of_manager,
    fun a ha => hw.stop hstop ha⟩
  have hvariant : nodes.length + 2 - (Walk.start nodes role).chain.length < fuel := by
    show nodes.length + 2 - 1 < fuel
    omega
  rw [chainOf, hrun fuel hvariant]
  rfl

/-- **`resolve_chain` terminates**, with a chain of reporting lines from the role that is as long as it can be: over any
nodes, and so over those of a team in any table. -/
theorem resolveChain_total :
    (∀ (nodes : List OrgNode) (role : String), ∃ chain,
      (∀ fuel, nodes.length + 1 < fuel → chainOf fuel nodes role = some chain) ∧ Resolved nodes role chain) ∧
    ∀ (t : Nodes) (team role : String), ∃ chain,
      (∀ fuel, (OrgChart.nodes t team).1.length + 1 < fuel →
        resolveChain fuel t team role = (some chain, (OrgChart.nodes t team).2)) ∧
        Resolved (OrgChart.nodes t team).1 role chain := by
  refine ⟨chainOf_total, fun t team role => ?_⟩
  obtain ⟨chain, hrun, hchain⟩ := chainOf_total (OrgChart.nodes t team).1 role
  refine ⟨chain, fun fuel hfuel => ?_, hchain⟩
  unfold resolveChain
  dsimp only
  rw [hrun fuel hfuel]

/-- A circle is followed once. -/
example : chainOf 5 [⟨"a", "", some "b", none, true⟩, ⟨"b", "", some "a", none, true⟩] "a" = some ["a", "b"] := by
  decide +kernel

end OrgChart

end Persola.Workqueue
