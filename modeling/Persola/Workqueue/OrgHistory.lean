import Persola.Lib.Seeded
import Persola.Workqueue.OrgChart

/-!
# `Workqueue.OrgHistory` — what the chart shows after any history of calls

The five default nodes of a team are stored when a call first looks at its chart, and only if its transaction is
committed. The chart is meant to be a map with the defaults in it from the start (`ideal`). Each cell of the table is a
seeded cell (`Lib.Seeded`), so the calls answer as the map does except where a default was deactivated before it was
stored (`answers_iff`).
-/

namespace Persola.Workqueue.OrgChart

/-! ## The calls -/

/-- `deactivate`. -/
def deactivate (t : Nodes) (team role : String) : Nodes :=
  t.modify (team, role) (fun row => { row with active := false }) fun _ => rfl

/-- What `manager_of` does with the nodes. -/
def managerOf (nodes : List OrgNode) (role : String) : Option OrgNode := do
  let node ← Py.getItem (chart nodes) role
  let reportsTo ← node.reportsTo
  Py.getItem (chart nodes) reportsTo

/-- What `reports_of` does with the nodes. -/
def reportsOf (nodes : List OrgNode) (role : String) : List OrgNode :=
  nodes.filter fun n => n.reportsTo = some role ∧ n.active = true

/-- What `top_of_chart` does with the nodes. -/
def topOfChart (nodes : List OrgNode) : Option OrgNode :=
  nodes.find? fun node => node.reportsTo = none ∧ node.active = true

/-- The methods of `OrgChart`, and what `POST /tasks` does with the chart. -/
inductive Call where
  | get
  | upsertNode (node : OrgNode)
  | deactivate (role : String)
  | managerOf (role : String)
  | reportsOf (role : String)
  | topOfChart
  | resolveChain (role : String)
  | toDict
  | enqueueTask (role : Option String)

/-- What they return. -/
inductive Answer where
  | done
  | nodes (l : List OrgNode)
  | node (n : Option OrgNode)
  | chain (roles : Option (List String))
  | dict (teamId : String) (top : Option String) (nodes : List OrgNode)
  | role (r : String)
deriving DecidableEq

/-- A call for a team in a transaction of its own. `GET /org-chart` ends without a commit. -/
structure Tx where
  team : String
  call : Call
  committed : Bool := true

/-- What the call returns, and the table its transaction sees at the end. -/
def Call.run (t : Nodes) (team : String) : Call → Answer × Nodes
  | .upsertNode node => (.node node, upsert t team node)
  | .deactivate role => (.done, OrgChart.deactivate t team role)
  | .get => (.nodes (nodes t team).1, (nodes t team).2)
  | .managerOf role => (.node (OrgChart.managerOf (nodes t team).1 role), (nodes t team).2)
  | .reportsOf role => (.nodes (OrgChart.reportsOf (nodes t team).1 role), (nodes t team).2)
  | .topOfChart => (.node (OrgChart.topOfChart (nodes t team).1), (nodes t team).2)
  | .resolveChain role =>
      let (chain, t') := OrgChart.resolveChain ((nodes t team).1.length + 2) t team role
      (.chain chain, t')
  | .toDict =>
      (.dict team ((OrgChart.topOfChart (nodes t team).1).map (·.role)) (nodes t team).1, (nodes t team).2)
  | .enqueueTask (some role) => (.role role, t)
  | .enqueueTask none =>
      (.role (((OrgChart.topOfChart (nodes t team).1).map (·.role)).getD "coordinator"), (nodes t team).2)

/-- What a transaction returns, and the table afterwards. -/
def Tx.run (t : Nodes) (tx : Tx) : Answer × Nodes :=
  let (answer, t') := tx.call.run t tx.team
  (answer, if tx.committed then t' else t)

/-- The table after a history, which starts empty. -/
def after (history : List Tx) : Nodes := history.foldl (fun t tx => (tx.run t).2) ⟨[], List.nodup_nil⟩

/-! ## The chart that is meant -/

/-- The node of a role that every team has. -/
def default (role : String) : Option OrgNode := (builtinArchetypes.find? (·.1 = role)).map defaultNode

/-- What `deactivate` does to a node. -/
def deactivated (node : OrgNode) : OrgNode := { node with active := false }

/-- What a transaction that is committed does to the node of a role in a team. -/
def Tx.event (team role : String) (tx : Tx) : Option (Seeded.Event OrgNode) :=
  if tx.committed ∧ tx.team = team then
    match tx.call with
    | .upsertNode node => if node.role = role then some (.write node) else none
    | .deactivate r => if r = role then some .change else none
    | .enqueueTask (some _) => none
    | _ => some .look
  else none

/-- What a history does to it. -/
def events (history : List Tx) (team role : String) : List (Seeded.Event OrgNode) :=
  history.filterMap (Tx.event team role)

/-- The node of a role in a team whose defaults are there from the start: as it was last written, and inactive if
somebody deactivated it since. -/
def ideal (history : List Tx) (team role : String) : Option OrgNode :=
  (events history team role).foldl (Seeded.eager deactivated) (default role)

/-- The nodes are those of the map, each once, by role. -/
structure Lists (nodes : List OrgNode) (f : String → Option OrgNode) : Prop where
  sorted : nodes.Pairwise fun a b => a.role < b.role
  mem : ∀ node, node ∈ nodes ↔ f node.role = some node

/-- A map from roles to nodes of that role. -/
def Keyed (f : String → Option OrgNode) : Prop := ∀ r node, f r = some node → node.role = r

/-- The first active node that has no manager. -/
def IsTop (f : String → Option OrgNode) : Option OrgNode → Prop
  | none => ∀ node, f node.role = some node → node.reportsTo = none → node.active = false
  | some top => f top.role = some top ∧ top.reportsTo = none ∧ top.active = true ∧
      ∀ node, f node.role = some node → node.reportsTo = none → node.active = true → top.role ≤ node.role

/-- What a call answers over a map of the nodes of its team. -/
def Says (f : String → Option OrgNode) (team : String) : Call → Answer → Prop
  | .upsertNode node, a => a = .node node
  | .deactivate _, a => a = .done
  | .get, a => ∃ nodes, a = .nodes nodes ∧ Lists nodes f
  | .managerOf role, a => a = .node (do f (← (← f role).reportsTo))
  | .reportsOf role, a => ∃ nodes, a = .nodes nodes ∧
      Lists nodes fun r => (f r).filter fun n => n.reportsTo = some role ∧ n.active = true
  | .topOfChart, a => ∃ top, a = .node top ∧ IsTop f top
  | .resolveChain role, a => ∃ nodes chain, a = .chain (some chain) ∧ Lists nodes f ∧ Resolved nodes role chain
  | .toDict, a => ∃ top nodes, a = .dict team (top.map (·.role)) nodes ∧ Lists nodes f ∧ IsTop f top
  | .enqueueTask (some role), a => a = .role role
  | .enqueueTask none, a => ∃ top, a = .role ((top.map (·.role)).getD "coordinator") ∧ IsTop f top

/-! ## Answers over a list of nodes -/

variable {f : String → Option OrgNode} {l : List OrgNode} {t : Nodes} {team role : String}

theorem Lists.mem_of (h : Lists l f) (hkey : Keyed f) {r : String} {node : OrgNode} (hr : f r = some node) :
    node ∈ l ∧ node.role = r := by
  have hrole := hkey r node hr
  exact ⟨(h.mem node).mpr (hrole.symm ▸ hr), hrole⟩

/-- A list shows one map. -/
theorem Lists.unique {g : String → Option OrgNode} (hf : Lists l f) (hg : Lists l g) (hfkey : Keyed f)
    (hgkey : Keyed g) : f = g := by
  have hsub {f g : String → Option OrgNode} (hf : Lists l f) (hg : Lists l g) (hfkey : Keyed f) (r : String)
      (node : OrgNode) (hr : f r = some node) : g r = some node := by
    obtain ⟨hmem, rfl⟩ := hf.mem_of hfkey hr
    exact (hg.mem node).mp hmem
  funext r
  exact Option.ext fun node => ⟨hsub hf hg hfkey r node, hsub hg hf hgkey r node⟩

theorem Lists.getItem_chart (h : Lists l f) (hkey : Keyed f) (r : String) : Py.getItem (chart l) r = f r := by
  cases hr : Py.getItem (chart l) r with
  | none =>
      have hno := not_mem_of_chart hr
      cases hf : f r with
      | none => rfl
      | some node =>
          obtain ⟨hmem, hrole⟩ := h.mem_of hkey hf
          exact absurd hrole (hno node hmem)
  | some node =>
      obtain ⟨hmem, rfl⟩ := mem_of_chart hr
      exact ((h.mem node).mp hmem).symm

theorem Lists.reportsOf (h : Lists l f) (role : String) :
    Lists (reportsOf l role) fun r => (f r).filter fun n => n.reportsTo = some role ∧ n.active = true := by
  refine ⟨h.sorted.filter _, fun node => ?_⟩
  rw [OrgChart.reportsOf, List.mem_filter, h.mem, Option.filter_eq_some_iff]

theorem Lists.isTop (h : Lists l f) : IsTop f (topOfChart l) := by
  cases htop : topOfChart l with
  | none =>
      intro node hnode hroot
      have hno := List.find?_eq_none.mp htop node ((h.mem node).mpr hnode)
      simpa [hroot] using hno
  | some top =>
      obtain ⟨hp, pre, post, hl, hpre⟩ := List.find?_eq_some_iff_append.mp htop
      obtain ⟨hroot, hactive⟩ := of_decide_eq_true hp
      have hmem : top ∈ l := by rw [hl]; simp
      refine ⟨(h.mem top).mp hmem, hroot, hactive, fun node hnode hnroot hnactive => ?_⟩
      have hsorted := h.sorted
      have hnmem := (h.mem node).mpr hnode
      rw [hl] at hsorted hnmem
      rcases List.mem_append.mp hnmem with hin | hin
      · simpa [hnroot, hnactive] using hpre node hin
      · rcases List.mem_cons.mp hin with rfl | hin
        · exact le_rfl
        · exact ((List.pairwise_cons.mp (List.pairwise_append.mp hsorted).2.1).1 node hin).le

/-! ## The table -/

/-- The node that is stored for a role. -/
def stored (t : Nodes) (team role : String) : Option OrgNode := (t.get? (team, role)).map (·.toOrgNode)

/-- The node that a look at the chart shows. -/
def shown (t : Nodes) (team role : String) : Option OrgNode := (stored t team role).or (default role)

theorem stored_upsert (t : Nodes) (team' : String) (node : OrgNode) : stored (upsert t team' node) team role =
    if team' = team ∧ node.role = role then some node else stored t team role := by
  unfold stored
  rw [get?_upsert]
  by_cases h : team' = team ∧ node.role = role
  · obtain ⟨rfl, rfl⟩ := h
    rw [if_pos rfl, if_pos ⟨rfl, rfl⟩]
    rfl
  · rw [if_neg h, if_neg]
    rintro ⟨⟩
    exact h ⟨rfl, rfl⟩

theorem stored_deactivate (t : Nodes) (team' role' : String) : stored (deactivate t team' role') team role =
    if team' = team ∧ role' = role then (stored t team role).map deactivated else stored t team role := by
  unfold stored deactivate
  rw [Table.get?_modify]
  by_cases h : team' = team ∧ role' = role
  · obtain ⟨rfl, rfl⟩ := h
    rw [if_pos rfl, if_pos ⟨rfl, rfl⟩, Option.map_map, Option.map_map]
    rfl
  · rw [if_neg h, if_neg]
    rintro ⟨⟩
    exact h ⟨rfl, rfl⟩

theorem stored_nodes (t : Nodes) (team' : String) : stored (nodes t team').2 team role =
    if team' = team then shown t team role else stored t team role := by
  show (Table.get? (ensureSeeded t team') (team, role)).map _ = _
  rw [get?_ensureSeeded, shown, stored, default]
  by_cases hteam : team' = team
  · obtain rfl := hteam
    rw [if_pos rfl, if_pos rfl]
    cases t.get? (team', role) with
    | none => simp [Function.comp_def]
    | some row => simp
  · rw [if_neg (Ne.symm hteam), if_neg hteam, Option.or_none]

theorem default_role (node : OrgNode) (h : default role = some node) : node.role = role := by
  obtain ⟨a, ha, rfl⟩ := Option.map_eq_some_iff.mp h
  have hrole := List.find?_some ha
  exact of_decide_eq_true hrole

theorem shown_keyed (t : Nodes) (team : String) : Keyed (shown t team) := by
  intro r node h
  rcases Option.or_eq_some_iff.mp h with h | ⟨-, h⟩
  · obtain ⟨row, hrow, rfl⟩ := Option.map_eq_some_iff.mp h
    exact (of_get? hrow).2
  · exact default_role node h

theorem nodes_lists (t : Nodes) (team : String) : Lists (nodes t team).1 (shown t team) := by
  constructor
  · have hsorted := Select.orderBy_pairwise (fun row : OrgNodeModel => row.role)
      ((ensureSeeded t team).rows.filter (·.teamId = team))
    have hnodup : (listForTeam (ensureSeeded t team) team).Nodup :=
      (Select.orderBy_perm _ _).nodup_iff.mpr ((List.Nodup.of_map _ (ensureSeeded t team).nodup).filter _)
    have hinj : ∀ a ∈ listForTeam (ensureSeeded t team) team, ∀ b ∈ listForTeam (ensureSeeded t team) team,
        a.role = b.role → a = b := by
      intro a ha b hb hrole
      rw [mem_listForTeam] at ha hb
      rw [hrole, hb] at ha
      exact (Option.some.inj ha).symm
    show ((listForTeam (ensureSeeded t team) team).map (·.toOrgNode)).Pairwise _
    rw [List.pairwise_map]
    refine (List.pairwise_and_iff.mpr ⟨hsorted, hnodup⟩).imp_of_mem ?_
    rintro a b ha hb ⟨hle, hne⟩
    exact lt_of_le_of_ne hle fun hrole => hne (hinj a ha b hb hrole)
  · intro node
    have hstored : stored (nodes t team).2 team node.role = shown t team node.role := by
      rw [stored_nodes, if_pos rfl]
    rw [mem_nodes, ← hstored, stored, Option.map_eq_some_iff]
    constructor
    · exact fun h => ⟨_, h, rfl⟩
    · rintro ⟨row, hrow, rfl⟩
      obtain rfl := (of_get? hrow).1
      exact hrow

/-- Every call answers as it should over the nodes that are shown. -/
theorem says_run (t : Nodes) (team : String) (call : Call) : Says (shown t team) team call (call.run t team).1 := by
  have hlists := nodes_lists t team
  have hkey := shown_keyed t team
  cases call with
  | get => exact ⟨_, rfl, hlists⟩
  | upsertNode node => rfl
  | deactivate role => rfl
  | managerOf role =>
      refine congrArg Answer.node ?_
      unfold OrgChart.managerOf
      simp only [hlists.getItem_chart hkey]
  | reportsOf role => exact ⟨_, rfl, hlists.reportsOf role⟩
  | topOfChart => exact ⟨_, rfl, hlists.isTop⟩
  | resolveChain role =>
      obtain ⟨chain, hrun, hchain⟩ := chainOf_total (nodes t team).1 role
      refine ⟨_, chain, ?_, hlists, hchain⟩
      exact congrArg Answer.chain (hrun _ (Nat.lt_succ_self _))
  | toDict => exact ⟨_, _, rfl, hlists, hlists.isTop⟩
  | enqueueTask role =>
      cases role with
      | none => exact ⟨_, rfl, hlists.isTop⟩
      | some role => rfl

/-! ## The history -/

/-- A node is written under its own role. -/
theorem Tx.role_of_event {tx : Tx} {node : OrgNode} (h : tx.event team role = some (.write node)) :
    node.role = role := by
  obtain ⟨team', call, committed⟩ := tx
  unfold Tx.event at h
  split at h
  · cases call with
    | upsertNode written =>
        dsimp only at h
        split at h
        · obtain rfl := Seeded.Event.write.inj (Option.some.inj h)
          assumption
        · cases h
    | deactivate role' =>
        dsimp only at h
        split at h <;> cases h
    | enqueueTask assignee => cases assignee <;> cases h
    | _ => cases h
  · cases h

theorem stored_run (t : Nodes) (tx : Tx) : stored (tx.run t).2 team role =
    ((tx.event team role).elim (stored t team role) (Seeded.lazy deactivated (default role) (stored t team role))) := by
  unfold Tx.run Tx.event
  obtain ⟨team', call, committed⟩ := tx
  cases committed with
  | false => simp
  | true =>
      cases call with
      | upsertNode node =>
          show stored (upsert t team' node) team role = _
          rw [stored_upsert]
          by_cases hteam : team' = team <;> by_cases hrole : node.role = role <;> simp [hteam, hrole, Seeded.lazy]
      | deactivate role' =>
          show stored (deactivate t team' role') team role = _
          rw [stored_deactivate]
          by_cases hteam : team' = team <;> by_cases hrole : role' = role <;> simp [hteam, hrole, Seeded.lazy]
      | enqueueTask assignee =>
          cases assignee with
          | some r => simp [Call.run]
          | none =>
              show stored (nodes t team').2 team role = _
              rw [stored_nodes]
              by_cases hteam : team' = team <;> simp [hteam, Seeded.lazy, shown]
      | _ =>
          show stored (nodes t team').2 team role = _
          rw [stored_nodes]
          by_cases hteam : team' = team <;> simp [hteam, Seeded.lazy, shown]

theorem stored_after (history : List Tx) (team role : String) : stored (after history) team role =
    (events history team role).foldl (Seeded.lazy deactivated (default role)) none := by
  induction history using List.reverseRecOn with
  | nil => rfl
  | append_singleton history tx ih =>
      have hafter : after (history ++ [tx]) = (tx.run (after history)).2 := by
        rw [after, List.foldl_append]
        rfl
      rw [hafter, stored_run, ih, events, events, List.filterMap_append, List.foldl_append]
      cases htx : tx.event team role with
      | none => simp [htx]
      | some e => simp [htx]

theorem ideal_keyed (history : List Tx) (team : String) : Keyed (ideal history team) := by
  intro role
  unfold ideal
  induction history using List.reverseRecOn with
  | nil => exact default_role
  | append_singleton history tx ih =>
      rw [events, List.filterMap_append, List.foldl_append]
      intro node h
      cases htx : tx.event team role with
      | none =>
          simp only [List.filterMap_cons, htx, List.filterMap_nil, List.foldl_nil] at h
          exact ih node h
      | some e =>
          simp only [List.filterMap_cons, htx, List.filterMap_nil, List.foldl_cons, List.foldl_nil] at h
          cases e with
          | look => exact ih node h
          | change =>
              obtain ⟨node', hnode', rfl⟩ := Option.map_eq_some_iff.mp h
              exact ih node' hnode'
          | write written =>
              obtain rfl := Option.some.inj h
              exact Tx.role_of_event htx

/-- A default is active. -/
theorem deactivated_default (node : OrgNode) (h : default role = some node) : deactivated node ≠ node := by
  obtain ⟨a, -, rfl⟩ := Option.map_eq_some_iff.mp h
  intro heq
  cases congrArg OrgNode.active heq

/-- A deactivation of a default node is lost: it came before every look at the chart of the team and every write of the
node, and nobody has written or deactivated the node since the first look. -/
def Lost (history : List Tx) (team role : String) : Prop :=
  default role ≠ none ∧ Seeded.Missed (events history team role)

theorem shown_after_iff (history : List Tx) (team role : String) :
    shown (after history) team role = ideal history team role ↔ ¬ Lost history team role := by
  rw [shown, stored_after]
  exact Seeded.shown_iff (fun _ => rfl) fun node => deactivated_default node

/-- **After every history of calls, the calls for a team answer as the chart that is meant does if and only if no
deactivation of a default node of that team is lost.** -/
theorem answers_iff (history : List Tx) (team : String) :
    (∀ (call : Call) (committed : Bool),
      Says (ideal history team) team call ((Tx.mk team call committed).run (after history)).1) ↔
    ∀ role, ¬ Lost history team role := by
  constructor
  · intro h role
    rw [← shown_after_iff]
    obtain ⟨nodes, hnodes, hlists⟩ := h .get true
    have heq : (OrgChart.nodes (after history) team).1 = nodes := Answer.nodes.inj hnodes
    obtain rfl := heq
    have hsame := (nodes_lists (after history) team).unique hlists (shown_keyed _ team) (ideal_keyed history team)
    exact congrFun hsame role
  · intro h call committed
    have hshown : shown (after history) team = ideal history team :=
      funext fun role => (shown_after_iff history team role).mpr (h role)
    exact hshown ▸ says_run (after history) team call

/-- A chart that was looked at by a request that does not commit: the deactivation after it is lost. -/
example : Lost [⟨"ops", .toDict, false⟩, ⟨"ops", .deactivate "analyst", true⟩] "ops" "analyst" := by
  have hevents : events [⟨"ops", .toDict, false⟩, ⟨"ops", .deactivate "analyst", true⟩] "ops" "analyst" = [.change] := rfl
  refine ⟨by decide +kernel, ?_⟩
  rw [hevents]
  exact ⟨rfl, fun e he => absurd he List.not_mem_nil⟩

end Persola.Workqueue.OrgChart
