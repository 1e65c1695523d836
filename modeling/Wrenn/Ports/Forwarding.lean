import Wrenn.Lib.Places
import Wrenn.Ports.Model

/-!
# Forwarding follows the scan

Nobody tells a forwarder that a child has exited: its entry stays, the port is not forwarded any more, and when the
entry goes the PID is killed that another process may have by then.  A child that finds its port taken exits as well;
this happens if a listener comes back under another inode, if a port has two listeners, and after a restart.

* `Scanned`: what a forwarder knows of its table, by the point it is at;
* `Linked`: the entries of all forwarders and the living children belong together, as long as no child exits by itself
  and none is started for a port that another one may hold;
* `reach_follows`: under this condition forwarding follows the scan, and only children are killed;
* `lost_child_not_replaced`: a run in which a child exits.
-/

namespace Wrenn.Ports.Forwarding

open Model Lib.Places Lib.Runs Lib.Tables Function

/-! ### The table of a forwarder -/

/-- The entries follow the scan in hand. -/
def Scanned (fw : Forwarder) : Prop :=
  match fw.pc with
  | .idle => fw.scanned = true →
      (∀ e ∈ fw.ports.rows, e.key ∈ fw.scan.map ConnStat.key) ∧ ∀ c ∈ fw.scan, ∃ e ∈ fw.ports.rows, e.key = c.key
  | .scanning left => ∃ seen, fw.scan = seen ++ left ∧
      (∀ e ∈ fw.ports.rows, e.state = .forward → e.key ∈ seen.map ConnStat.key) ∧
      ∀ c ∈ seen, ∃ e ∈ fw.ports.rows, e.key = c.key ∧ e.state = .forward
  | .stopping left => left.Nodup ∧
      (∀ e ∈ fw.ports.rows, e.key ∈ fw.scan.map ConnStat.key ∨ e.key ∈ left) ∧
      (∀ key ∈ left, ∃ e ∈ fw.ports.rows, e.key = key ∧ e.state = .delete) ∧
      ∀ c ∈ fw.scan, ∃ e ∈ fw.ports.rows, e.key = c.key ∧ e.state = .forward
  | .draining _ | .finished => True

section Scanned

variable {fw fw' : Forwarder} {c : ConnStat} {cs left : List ConnStat} {choice : Choice} {eff : Effect}

variable {e : PortToForward}

theorem mem_rows_delete {t : Table PortToForward.key} {p : PortToForward → Bool} :
    e ∈ (t.delete p).rows ↔ e ∈ t.rows ∧ p e = false := by
  simp [Table.delete, List.mem_filter]

theorem rows_insert {t t' : Table PortToForward.key} (h : t.insert e = some t') : t'.rows = e :: t.rows := by
  unfold Table.insert at h
  split_ifs at h
  cases h
  rfl

/-- The scan begins: all entries are marked. -/
theorem scanned_scan (ports : List ConnStat) :
    Scanned { fw with ports := fw.ports.update (fun _ => true) (mark .delete) (fun _ => rfl), pc := .scanning ports,
                      scan := ports } := by
  refine ⟨[], rfl, fun e he hstate => ?_, List.forall_mem_nil _⟩
  obtain ⟨e0, -, rfl⟩ := List.mem_map.mp he
  cases hstate

/-- A connection that has an entry. -/
theorem scanned_known (h : Scanned fw) (hpc : fw.pc = .scanning (c :: cs)) (he : fw.ports.select c.key = some e) :
    Scanned { fw with ports := fw.ports.update (fun e => decide (e.key = c.key)) (mark .forward) (fun _ => rfl),
                      pc := .scanning cs } := by
  rw [Scanned, hpc] at h
  obtain ⟨seen, hscan, hforward, hseen⟩ := h
  obtain ⟨hmem, hkey⟩ := Table.select_eq_some.mp he
  refine ⟨seen ++ [c], by rw [hscan, List.append_assoc]; rfl, fun e1 he1 hstate => ?_, fun c1 hc1 => ?_⟩
  · obtain ⟨e0, he0, rfl⟩ := List.mem_map.mp he1
    rw [List.map_append, List.mem_append]
    by_cases hk : e0.key = c.key
    · right
      simp only [decide_eq_true hk, if_true]
      exact List.mem_singleton.mpr hk
    · simp only [decide_eq_false hk, Bool.false_eq_true, if_false] at hstate ⊢
      exact .inl (hforward e0 he0 hstate)
  · have hmark : ∀ e0 ∈ fw.ports.rows, e0.key = c1.key → (e0.key = c.key ∨ e0.state = .forward) →
        ∃ e ∈ (fw.ports.update (fun e => decide (e.key = c.key)) (mark .forward) (fun _ => rfl)).rows,
          e.key = c1.key ∧ e.state = .forward := by
      intro e0 he0 hk hor
      refine ⟨_, List.mem_map.mpr ⟨e0, he0, rfl⟩, ?_⟩
      by_cases hk' : e0.key = c.key
      · simp only [decide_eq_true hk', if_true]
        exact ⟨hk, rfl⟩
      · simp only [decide_eq_false hk', Bool.false_eq_true, if_false]
        exact ⟨hk, hor.resolve_left hk'⟩
    rcases List.mem_append.mp hc1 with hc1 | hc1
    · obtain ⟨e0, he0, hk, hstate⟩ := hseen c1 hc1
      exact hmark e0 he0 hk (.inr hstate)
    · rw [List.mem_singleton.mp hc1] at hmark ⊢
      exact hmark e hmem hkey (.inl hkey)

/-- A connection that is new. -/
theorem scanned_new (h : Scanned fw) (hpc : fw.pc = .scanning (c :: cs))
    {ports : Table PortToForward.key} {pid : Option ℕ}
    (hins : fw.ports.insert (c.entry pid) = some ports) : Scanned { fw with ports := ports, pc := .scanning cs } := by
  rw [Scanned, hpc] at h
  obtain ⟨seen, hscan, hforward, hseen⟩ := h
  have hrows := rows_insert hins
  refine ⟨seen ++ [c], by rw [hscan, List.append_assoc]; rfl, fun e he hstate => ?_, fun c1 hc1 => ?_⟩
  · have he' : e ∈ ports.rows := he
    rw [hrows] at he'
    rw [List.map_append, List.mem_append]
    rcases List.mem_cons.mp he' with rfl | he'
    · exact .inr (List.mem_singleton.mpr rfl)
    · exact .inl (hforward e he' hstate)
  · show ∃ e ∈ ports.rows, e.key = c1.key ∧ e.state = .forward
    rw [hrows]
    rcases List.mem_append.mp hc1 with hc1 | hc1
    · obtain ⟨e, he, hrest⟩ := hseen c1 hc1
      exact ⟨e, List.mem_cons_of_mem _ he, hrest⟩
    · rw [List.mem_singleton.mp hc1]
      exact ⟨_, List.mem_cons_self .., rfl, rfl⟩

/-- The entries that are left marked. -/
theorem scanned_stop (h : Scanned fw) (hpc : fw.pc = .scanning []) :
    Scanned { fw with
      pc := .stopping ((fw.ports.list fun e => decide (e.state = .delete)).map PortToForward.key) } := by
  rw [Scanned, hpc] at h
  obtain ⟨seen, hscan, hforward, hseen⟩ := h
  rw [List.append_nil] at hscan
  subst hscan
  refine ⟨(List.Sublist.map _ List.filter_sublist).nodup fw.ports.nodup, fun e he => ?_, fun key hkey => ?_, hseen⟩
  · cases hstate : e.state with
    | forward => exact .inl (hforward e he hstate)
    | delete => exact .inr (List.mem_map_of_mem (Table.mem_list.mpr ⟨he, by simp [hstate]⟩))
  · obtain ⟨e, he, rfl⟩ := List.mem_map.mp hkey
    obtain ⟨hmem, hstate⟩ := Table.mem_list.mp he
    exact ⟨e, hmem, rfl, by simpa using hstate⟩

theorem scanned_remove {key : ℕ × ℕ} {keys : List (ℕ × ℕ)} (h : Scanned fw) (hpc : fw.pc = .stopping (key :: keys)) :
    Scanned { fw with ports := fw.ports.delete (fun e => decide (e.key = key)), pc := .stopping keys } := by
  rw [Scanned, hpc] at h
  obtain ⟨hnodup, hkeys, hmarked, hseen⟩ := h
  obtain ⟨hnot, hnodup⟩ := List.nodup_cons.mp hnodup
  have hkeep : ∀ e ∈ fw.ports.rows, e.key ≠ key → e ∈ (fw.ports.delete fun e => decide (e.key = key)).rows :=
    fun e he hne => mem_rows_delete.mpr ⟨he, by simp [hne]⟩
  refine ⟨hnodup, fun e he => ?_, fun key' hkey' => ?_, fun c hc => ?_⟩
  · obtain ⟨hmem, hne⟩ := mem_rows_delete.mp he
    have hne' : e.key ≠ key := by simpa using hne
    exact (hkeys e hmem).imp_right fun hin => (List.mem_cons.mp hin).resolve_left hne'
  · obtain ⟨e, he, rfl, hstate⟩ := hmarked key' (List.mem_cons_of_mem _ hkey')
    exact ⟨e, hkeep e he fun hk => hnot (hk ▸ hkey'), rfl, hstate⟩
  · obtain ⟨e, he, hk, hstate⟩ := hseen c hc
    refine ⟨e, hkeep e he fun hk' => ?_, hk, hstate⟩
    -- The entry that goes is marked, the one of the connection is not.
    obtain ⟨e1, he1, hk1, hstate1⟩ := hmarked key List.mem_cons_self
    rw [Table.eq_of_key he he1 (hk'.trans hk1.symm), hstate1] at hstate
    cases hstate

theorem scanned_advance (h : Scanned fw) (hadv : fw.advance choice = some (eff, fw')) : Scanned fw' := by
  unfold Forwarder.advance Forwarder.startPort at hadv
  repeat' split at hadv
  all_goals first
    | cases hadv
    | obtain ⟨ports, hins, ⟨⟩⟩ := Option.map_eq_some_iff.mp hadv
  case h_4 =>
    rw [Scanned, ‹fw.pc = _›] at h
    obtain ⟨-, hkeys, -, hseen⟩ := h
    refine fun _ => ⟨fun e he => (hkeys e he).resolve_right List.not_mem_nil, fun c hc => ?_⟩
    obtain ⟨e, he, hk, -⟩ := hseen c hc
    exact ⟨e, he, hk⟩
  all_goals first
    | trivial
    | exact scanned_scan _
    | exact scanned_stop h ‹_›
    | exact scanned_known h ‹_› ‹_›
    | exact scanned_new h ‹_› hins
    | exact scanned_remove h ‹_›

end Scanned

/-! ### What a step does to the links -/

/-- What a step of a forwarder does to its links. -/
inductive Relinks (fw : Forwarder) (choice : Choice) : List Link → Effect → List Link → Prop
  | keep (l : List Link) : Relinks fw choice l .none l
  | spawn {pid port : ℕ} {args : List String} (hc : choice = .spawned pid)
      (hp : fw.nextPort = some port) (l : List Link) :
    Relinks fw choice l (.spawn pid port args) ((some pid, port) :: l)
  | fail (hc : choice = .spawnFailed) (port : ℕ) (l : List Link) : Relinks fw choice l .none ((none, port) :: l)
  | kill (pid port : ℕ) (a b : List Link) : Relinks fw choice (a ++ (some pid, port) :: b) (.kill pid) (a ++ b)
  | drop (port : ℕ) (a b : List Link) : Relinks fw choice (a ++ (none, port) :: b) .none (a ++ b)

section Relinks

variable {fw fw' : Forwarder} {choice : Choice} {eff : Effect}

theorem links_update (t : Table PortToForward.key) (p : PortToForward → Bool) (state : PortState) :
    (t.update p (mark state) fun _ => rfl).rows.map PortToForward.link = t.rows.map PortToForward.link := by
  show (t.rows.map fun e => if p e then mark state e else e).map PortToForward.link = _
  rw [List.map_map]
  refine List.map_congr_left fun e _ => ?_
  show (if p e = true then mark state e else e).link = e.link
  split_ifs <;> rfl

theorem relinks_stop (e : PortToForward) (a b : List Link) :
    Relinks fw choice (a ++ e.link :: b) (stopPortForwarding e) (a ++ b) := by
  cases hpid : e.pid with
  | none =>
    have hlink : e.link = (none, e.port) := by rw [PortToForward.link, hpid]
    rw [hlink, stopPortForwarding, hpid]
    exact .drop e.port a b
  | some pid =>
    have hlink : e.link = (some pid, e.port) := by rw [PortToForward.link, hpid]
    rw [hlink, stopPortForwarding, hpid]
    exact .kill pid e.port a b

theorem relinks_remove (key : ℕ × ℕ) :
    Relinks fw choice (fw.ports.rows.map PortToForward.link) ((fw.ports.select key).elim .none stopPortForwarding)
      ((fw.ports.delete fun e => decide (e.key = key)).rows.map PortToForward.link) := by
  cases hsel : fw.ports.select key with
  | none =>
    have hsame : (fw.ports.delete fun e => decide (e.key = key)).rows = fw.ports.rows := by
      refine List.filter_eq_self.mpr fun e he => ?_
      simpa using Table.select_eq_none.mp hsel e he
    rw [hsame]
    exact .keep _
  | some e =>
    obtain ⟨he, rfl⟩ := Table.select_eq_some.mp hsel
    obtain ⟨a, b, hrows, hdelete⟩ := Table.rows_delete_key he
    rw [hrows, hdelete, List.map_append, List.map_append, List.map_cons]
    exact relinks_stop e _ _

theorem relinks_advance (hadv : fw.advance choice = some (eff, fw')) : Relinks fw choice fw.links eff fw'.links := by
  unfold Forwarder.advance Forwarder.startPort at hadv
  unfold Forwarder.links
  split at hadv <;> rename_i hpc <;> rw [hpc] <;> (repeat' split at hadv)
  all_goals first
    | cases hadv
    | obtain ⟨ports, hins, ⟨⟩⟩ := Option.map_eq_some_iff.mp hadv
  case h_1 =>
    simp only [rows_insert hins, List.map_cons]
    exact .spawn rfl (by rw [Forwarder.nextPort, hpc]) _
  case h_2 =>
    simp only [rows_insert hins, List.map_cons]
    exact .fail rfl _ _
  all_goals first
    | exact .keep _
    | exact relinks_remove _
    | exact relinks_stop _ [] _
    | (simp only [links_update]; exact .keep _)

end Relinks

/-- The entries of the forwarders are the living children, each of them under its owner. -/
structure Linked (links : ℕ → List Link) (socats : List Socat) : Prop where
  entry : ∀ i, ∀ l ∈ links i, ∃ q ∈ socats, l = (some q.pid, q.port) ∧ q.owner = i ∧ q.status.live = true
  child : ∀ q ∈ socats, q.status.live = true → (some q.pid, q.port) ∈ links q.owner
  nodup : ∀ i, ((links i).map Prod.fst).Nodup
  /-- no two children may have a port -/
  ports : ∀ (j k : ℕ) (a b : Socat), socats[j]? = some a → socats[k]? = some b → a.status.claims = true →
    b.status.claims = true → a.port = b.port → j = k
  pids : ∀ (j k : ℕ) (a b : Socat), socats[j]? = some a → socats[k]? = some b → a.status ≠ .reaped →
    b.status ≠ .reaped → a.pid = b.pid → j = k

section Linked

variable {links : ℕ → List Link} {socats : List Socat} {i pid port : ℕ}

variable {st : Status} {q : Socat}

theorem claims_of_live (h : st.live = true) : st.claims = true := by
  cases st <;> first | rfl | cases h

theorem ne_reaped_of_claims (h : st.claims = true) : st ≠ .reaped := by
  rintro rfl
  cases h

theorem Linked.eq_of_pid (h : Linked links socats) {a b : Socat} (ha : a ∈ socats) (hb : b ∈ socats)
    (ha' : a.status ≠ .reaped) (hb' : b.status ≠ .reaped) (hpid : a.pid = b.pid) : a = b := by
  obtain ⟨j, hj⟩ := List.mem_iff_getElem?.mp ha
  obtain ⟨k, hk⟩ := List.mem_iff_getElem?.mp hb
  obtain rfl := h.pids j k a b hj hk ha' hb' hpid
  rw [hj] at hk
  exact Option.some.inj hk

theorem Linked.spawn (h : Linked links socats) {args : List String}
    (hpid : ∀ q ∈ socats, q.pid = pid → q.status = .reaped)
    (hport : ∀ q ∈ socats, q.port = port → q.status.claims = false) :
    Linked (update links i ((some pid, port) :: links i)) (socats ++ [⟨pid, port, i, args, .starting⟩]) := by
  have hfresh : some pid ∉ (links i).map Prod.fst := by
    intro hmem
    obtain ⟨l, hl, hfst⟩ := List.mem_map.mp hmem
    obtain ⟨q, hq, rfl, -, hlive⟩ := h.entry i l hl
    have hreaped := hpid q hq (Option.some.inj hfst)
    rw [hreaped] at hlive
    cases hlive
  have hclash : ∀ {j : ℕ} {q : Socat}, socats[j]? = some q → q.status.claims = true → q.port ≠ port := by
    intro j q hq hclaims hp
    rw [hport q (List.mem_of_getElem? hq) hp] at hclaims
    cases hclaims
  refine ⟨fun i' l hl => ?_, fun q hq hlive => ?_, fun i' => ?_, fun j k a b ha hb hca hcb hab => ?_,
    fun j k a b ha hb hra hrb hab => ?_⟩
  · have hold : l ∈ links i' → ∃ q ∈ socats ++ [⟨pid, port, i, args, .starting⟩], l = (some q.pid, q.port) ∧
        q.owner = i' ∧ q.status.live = true := fun hl => by
      obtain ⟨q, hq, hrest⟩ := h.entry i' l hl
      exact ⟨q, List.mem_append_left _ hq, hrest⟩
    by_cases hi : i' = i
    · subst hi
      rw [update_self] at hl
      rcases List.mem_cons.mp hl with rfl | hl
      · exact ⟨_, List.mem_append_right _ (List.mem_singleton.mpr rfl), rfl, rfl, rfl⟩
      · exact hold hl
    · rw [update_of_ne hi] at hl
      exact hold hl
  · rcases List.mem_append.mp hq with hq | hq
    · have hmem := h.child q hq hlive
      by_cases hi : q.owner = i
      · rw [hi, update_self]
        exact List.mem_cons_of_mem _ (hi ▸ hmem)
      · rw [update_of_ne hi]
        exact hmem
    · rw [List.mem_singleton.mp hq, update_self]
      exact List.mem_cons_self ..
  · by_cases hi : i' = i
    · subst hi
      rw [update_self, List.map_cons]
      exact List.nodup_cons.mpr ⟨hfresh, h.nodup i'⟩
    · rw [update_of_ne hi]
      exact h.nodup i'
  · rcases get_append_new ha with ha' | ⟨hj, rfl⟩ <;> rcases get_append_new hb with hb' | ⟨hk, rfl⟩
    · exact h.ports j k a b ha' hb' hca hcb hab
    · exact absurd hab (hclash ha' hca)
    · exact absurd hab.symm (hclash hb' hcb)
    · omega
  · rcases get_append_new ha with ha' | ⟨hj, rfl⟩ <;> rcases get_append_new hb with hb' | ⟨hk, rfl⟩
    · exact h.pids j k a b ha' hb' hra hrb hab
    · exact absurd (hpid a (List.mem_of_getElem? ha') hab) hra
    · exact absurd (hpid b (List.mem_of_getElem? hb') hab.symm) hrb
    · omega

theorem kill_frame (pid : ℕ) (q : Socat) :
    (q.kill pid).pid = q.pid ∧ (q.kill pid).port = q.port ∧ (q.kill pid).owner = q.owner ∧
      (q.kill pid).status.claims = q.status.claims ∧ ((q.kill pid).status = .reaped ↔ q.status = .reaped) := by
  obtain ⟨pid', port, owner, args, status⟩ := q
  unfold Socat.kill
  split_ifs
  · cases status <;> simp [Status.claims]
  · exact ⟨rfl, rfl, rfl, rfl, Iff.rfl⟩

theorem kill_of_ne (h : q.pid ≠ pid) : q.kill pid = q := if_neg h

theorem not_live_kill (h : q.pid = pid) : (q.kill pid).status.live = false := by
  obtain ⟨pid', port, owner, args, status⟩ := q
  rw [Socat.kill, if_pos h]
  cases status <;> rfl

/-- A forwarder kills the child of one of its entries. -/
theorem Linked.kill (h : Linked links socats) {a b : List Link} (hl : links i = a ++ (some pid, port) :: b) :
    Linked (update links i (a ++ b)) (socats.map (Socat.kill pid)) ∧ ownGroup socats i pid = true := by
  have hmem : (some pid, port) ∈ links i := by
    rw [hl]
    exact List.mem_append_right _ List.mem_cons_self
  obtain ⟨q0, hq0, hlink, howner, hlive0⟩ := h.entry i _ hmem
  have hpid0 : q0.pid = pid := (Option.some.inj (Prod.mk.inj hlink).1).symm
  have hunreaped : ∀ {q : Socat}, q.status.live = true → q.status ≠ .reaped := fun hlive =>
    ne_reaped_of_claims (claims_of_live hlive)
  -- No other living child has the PID.
  have honly : ∀ q ∈ socats, q.status.live = true → q.pid = pid → q = q0 := fun q hq hlive hpid =>
    h.eq_of_pid hq hq0 (hunreaped hlive) (hunreaped hlive0) (hpid.trans hpid0.symm)
  have hnodup : (((some pid, port) :: (a ++ b)).map Prod.fst).Nodup := by
    have hn := h.nodup i
    rw [hl, List.map_append, List.map_cons, List.nodup_middle, ← List.map_append] at hn
    exact hn
  obtain ⟨hnot, hrest⟩ := List.nodup_cons.mp hnodup
  have hsub : ∀ l ∈ a ++ b, l ∈ links i := by
    intro l hl'
    rw [hl]
    rcases List.mem_append.mp hl' with hl' | hl'
    · exact List.mem_append_left _ hl'
    · exact List.mem_append_right _ (List.mem_cons_of_mem _ hl')
  refine ⟨⟨fun i' l hl' => ?_, fun q hq hlive => ?_, fun i' => ?_, fun j k x y hx hy hcx hcy hxy => ?_,
    fun j k x y hx hy hrx hry hxy => ?_⟩, ?_⟩
  · -- The child of another entry has another PID.
    have hkeep : ∀ l ∈ links i', (i' = i → l ∈ a ++ b) → ∃ q ∈ socats.map (Socat.kill pid), l = (some q.pid, q.port) ∧
        q.owner = i' ∧ q.status.live = true := by
      intro l hl' hin
      obtain ⟨q, hq, hlq, ho, hlive⟩ := h.entry i' l hl'
      have hne : q.pid ≠ pid := by
        intro hpid
        have hq' := honly q hq hlive hpid
        have hi : i' = i := by rw [← ho, hq', howner]
        refine hnot (List.mem_map.mpr ⟨l, hin hi, ?_⟩)
        rw [hlq, hpid]
      exact ⟨q, List.mem_map.mpr ⟨q, hq, kill_of_ne hne⟩, hlq, ho, hlive⟩
    by_cases hi : i' = i
    · subst hi
      rw [update_self] at hl'
      exact hkeep l (hsub l hl') fun _ => hl'
    · rw [update_of_ne hi] at hl'
      exact hkeep l hl' fun hi' => absurd hi' hi
  · obtain ⟨q', hq', rfl⟩ := List.mem_map.mp hq
    have hne : q'.pid ≠ pid := by
      intro hpid
      rw [not_live_kill hpid] at hlive
      cases hlive
    rw [kill_of_ne hne] at hlive ⊢
    have hin := h.child q' hq' hlive
    by_cases hi : q'.owner = i
    · rw [hi, update_self]
      rw [hi, hl] at hin
      rcases List.mem_append.mp hin with hin | hin
      · exact List.mem_append_left _ hin
      · rcases List.mem_cons.mp hin with heq | hin
        · exact absurd (Option.some.inj (Prod.mk.inj heq).1) hne
        · exact List.mem_append_right _ hin
    · rw [update_of_ne hi]
      exact hin
  · by_cases hi : i' = i
    · subst hi
      rw [update_self]
      exact hrest
    · rw [update_of_ne hi]
      exact h.nodup i'
  · rw [List.getElem?_map] at hx hy
    obtain ⟨x', hx', rfl⟩ := Option.map_eq_some_iff.mp hx
    obtain ⟨y', hy', rfl⟩ := Option.map_eq_some_iff.mp hy
    obtain ⟨-, hxp, -, hxc, -⟩ := kill_frame pid x'
    obtain ⟨-, hyp, -, hyc, -⟩ := kill_frame pid y'
    exact h.ports j k x' y' hx' hy' (hxc ▸ hcx) (hyc ▸ hcy) (hxp.symm.trans (hxy.trans hyp))
  · rw [List.getElem?_map] at hx hy
    obtain ⟨x', hx', rfl⟩ := Option.map_eq_some_iff.mp hx
    obtain ⟨y', hy', rfl⟩ := Option.map_eq_some_iff.mp hy
    obtain ⟨hxp, -, -, -, hxr⟩ := kill_frame pid x'
    obtain ⟨hyp, -, -, -, hyr⟩ := kill_frame pid y'
    exact h.pids j k x' y' hx' hy' (fun hr => hrx (hxr.mpr hr)) (fun hr => hry (hyr.mpr hr))
      (hxp.symm.trans (hxy.trans hyp))
  · refine List.any_eq_true.mpr ⟨q0, hq0, ?_⟩
    exact decide_eq_true ⟨hpid0, howner, hunreaped hlive0⟩

/-- A child that changes its status without coming to life or dying. -/
theorem Linked.set (h : Linked links socats) {j : ℕ} (hq : socats[j]? = some q) (hlive : st.live = q.status.live)
    (hclaims : st.claims = true → q.status.claims = true) (hreaped : q.status = .reaped → st = .reaped) :
    Linked links (socats.set j { q with status := st }) := by
  have hjlt := (List.getElem?_eq_some_iff.mp hq).1
  -- What is at a place was there before, with another status perhaps.
  have hold : ∀ {k : ℕ} {x : Socat}, (socats.set j { q with status := st })[k]? = some x →
      ∃ x', socats[k]? = some x' ∧ x'.pid = x.pid ∧ x'.port = x.port ∧ x'.owner = x.owner ∧
        x.status.live = x'.status.live ∧ (x.status.claims = true → x'.status.claims = true) ∧
        (x.status ≠ .reaped → x'.status ≠ .reaped) := by
    intro k x hx
    rcases get_set hq hx with ⟨rfl, rfl⟩ | ⟨-, hx'⟩
    · exact ⟨q, hq, rfl, rfl, rfl, hlive, hclaims, fun hne hr => hne (hreaped hr)⟩
    · exact ⟨x, hx', rfl, rfl, rfl, rfl, id, id⟩
  refine ⟨fun i l hl => ?_, fun x hx hxlive => ?_, h.nodup, fun k k' a b ha hb hca hcb hab => ?_,
    fun k k' a b ha hb hra hrb hab => ?_⟩
  · obtain ⟨x, hx, hlx, ho, hxlive⟩ := h.entry i l hl
    obtain ⟨k, hk⟩ := List.mem_iff_getElem?.mp hx
    by_cases hkj : k = j
    · subst hkj
      rw [hq] at hk
      cases hk
      exact ⟨_, List.mem_of_getElem? (get_set_self hq), hlx, ho, hlive.trans hxlive⟩
    · refine ⟨x, List.mem_of_getElem? (i := k) ?_, hlx, ho, hxlive⟩
      rw [List.getElem?_set_ne (Ne.symm hkj)]
      exact hk
  · obtain ⟨k, hk⟩ := List.mem_iff_getElem?.mp hx
    obtain ⟨x', hx', hpid, hport, howner, hl, -, -⟩ := hold hk
    have hin := h.child x' (List.mem_of_getElem? hx') (hl.symm.trans hxlive)
    rw [hpid, hport, howner] at hin
    exact hin
  · obtain ⟨a', ha', -, hpa, -, -, hca', -⟩ := hold ha
    obtain ⟨b', hb', -, hpb, -, -, hcb', -⟩ := hold hb
    exact h.ports k k' a' b' ha' hb' (hca' hca) (hcb' hcb) (hpa.trans (hab.trans hpb.symm))
  · obtain ⟨a', ha', hpa, -, -, -, -, hra'⟩ := hold ha
    obtain ⟨b', hb', hpb, -, -, -, -, hrb'⟩ := hold hb
    exact h.pids k k' a' b' ha' hb' (hra' hra) (hrb' hrb) (hpa.trans (hab.trans hpb.symm))

/-- Nobody listens on the port of a child that is about to bind it. -/
theorem Linked.not_busy (h : Linked links socats) {j : ℕ} (hq : socats[j]? = some q) (hst : q.status = .starting) :
    busy socats j q.port = false := by
  rw [busy, List.any_eq_false]
  intro x hx hlisten
  obtain ⟨k, hne, hk⟩ := List.mem_eraseIdx_iff_getElem?.mp hx
  obtain ⟨hport, hlisten⟩ := Bool.and_eq_true_iff.mp hlisten
  have hclaims : x.status.claims = true := by
    cases hxs : x.status <;> rw [hxs] at hlisten <;> first | rfl | cases hlisten
  exact hne (h.ports k j x q hk hq hclaims (by rw [hst]; rfl) (of_decide_eq_true hport))

end Linked

/-! ### The condition -/

/-- No child exits unless it is killed, every spawn succeeds, and a child is started for a port only when
all earlier ones for this port are gone. -/
def Calm (s : State) : Act → Prop
  | .socat _ .exit => False
  | .forward _ .spawnFailed => False
  | .forward i (.spawned _) => ∀ port ∈ (s.forwarders[i]?).bind Forwarder.nextPort, ∀ q ∈ s.socats, q.port = port →
    q.status.claims = false
  | _ => True

instance (s : State) : ∀ a, Decidable (Calm s a)
  | .socat _ .exit | .forward _ .spawnFailed => isFalse not_false
  | .forward i (.spawned _) => inferInstanceAs (Decidable (∀ port ∈ (s.forwarders[i]?).bind Forwarder.nextPort,
      ∀ q ∈ s.socats, q.port = port → q.status.claims = false))
  | .start | .stop | .forward _ (.scan _) | .forward _ .cancelled | .forward _ .go | .socat _ .bind | .socat _ .die
  | .socat _ .reap => isTrue trivial

/-! ### Every run -/

structure Following (s : State) : Prop where
  scanned : ∀ (i : ℕ) (fw : Forwarder), s.forwarders[i]? = some fw → Scanned fw
  current : ∀ (i : ℕ) (fw : Forwarder), s.forwarders[i]? = some fw → fw.cancelled = false → s.current = some i
  linked : Linked s.links s.socats
  kills : ∀ k ∈ s.kills, k.own = true

section Step

variable {s s' : State} {i : ℕ}

theorem following_start (h : Following s) (hnone : s.current = none) :
    Following { s with forwarders := s.forwarders ++ [⟨false, .empty, .idle, [], false⟩],
                       current := some s.forwarders.length } := by
  have hlinks : State.links { s with forwarders := s.forwarders ++ [⟨false, .empty, .idle, [], false⟩],
                                     current := some s.forwarders.length } = s.links := by
    funext i
    show ((s.forwarders ++ [_])[i]?).elim [] Forwarder.links = (s.forwarders[i]?).elim [] Forwarder.links
    by_cases hi : i < s.forwarders.length
    · rw [List.getElem?_append_left hi]
    · rw [List.getElem?_append_right (by omega), List.getElem?_eq_none (l := s.forwarders) (by omega)]
      cases i - s.forwarders.length <;> rfl
  refine ⟨fun i fw hfw => ?_, fun i fw hfw hc => ?_, hlinks ▸ h.linked, h.kills⟩
  · rcases get_append_new hfw with hfw | ⟨-, rfl⟩
    · exact h.scanned i fw hfw
    · rintro ⟨⟩
  · rcases get_append_new hfw with hfw | ⟨rfl, -⟩
    · have hcur := h.current i fw hfw hc
      rw [hnone] at hcur
      cases hcur
    · rfl

theorem following_stop (h : Following s) (hcur : s.current = some i) :
    Following { s with
      forwarders := s.forwarders.modify i fun fw => { fw with cancelled := true }, current := none } := by
  have hget : ∀ j, (s.forwarders.modify i fun fw => { fw with cancelled := true })[j]? =
      (s.forwarders[j]?).map fun fw => if i = j then { fw with cancelled := true } else fw := by
    intro j
    rw [List.getElem?_modify]
    by_cases hij : i = j
    all_goals simp [hij]
  have hlinks : State.links { s with forwarders := s.forwarders.modify i fun fw => { fw with cancelled := true },
                                     current := none } = s.links := by
    funext j
    show ((s.forwarders.modify i _)[j]?).elim [] Forwarder.links = (s.forwarders[j]?).elim [] Forwarder.links
    rw [hget]
    cases s.forwarders[j]? with
    | none => rfl
    | some fw =>
      show Forwarder.links (if i = j then _ else _) = Forwarder.links fw
      split_ifs <;> rfl
  refine ⟨fun j fw hfw => ?_, fun j fw hfw hc => ?_, hlinks ▸ h.linked, h.kills⟩
  · rw [hget] at hfw
    obtain ⟨fw0, hfw0, rfl⟩ := Option.map_eq_some_iff.mp hfw
    have hs := h.scanned j fw0 hfw0
    split_ifs
    all_goals exact hs
  · rw [hget] at hfw
    obtain ⟨fw0, hfw0, rfl⟩ := Option.map_eq_some_iff.mp hfw
    split_ifs at hc with hij
    have hcur' := h.current j fw0 hfw0 hc
    rw [hcur] at hcur'
    exact absurd (Option.some.inj hcur') hij

variable {fw fw' : Forwarder} {choice : Choice}

theorem links_set (hfw : s.forwarders[i]? = some fw) :
    State.links { s with forwarders := s.forwarders.set i fw' } = update s.links i fw'.links := by
  funext j
  show ((s.forwarders.set i fw')[j]?).elim [] Forwarder.links = _
  by_cases hj : j = i
  · subst hj
    rw [get_set_self hfw, update_self]
    rfl
  · rw [List.getElem?_set_ne (Ne.symm hj), update_of_ne hj]
    rfl

/-- A step keeps the token of its forwarder. -/
theorem advance_cancelled {eff : Effect} (h : fw.advance choice = some (eff, fw')) : fw'.cancelled = fw.cancelled := by
  unfold Forwarder.advance Forwarder.startPort at h
  repeat' split at h
  all_goals first
    | cases h
    | obtain ⟨_, -, ⟨⟩⟩ := Option.map_eq_some_iff.mp h
  all_goals rfl

theorem linked_apply {eff : Effect} (h : Following s) (hfw : s.forwarders[i]? = some fw)
    (hre : Relinks fw choice fw.links eff fw'.links) (hok : Calm s (.forward i choice))
    (hs : { s with forwarders := s.forwarders.set i fw' }.apply i eff = some s') :
    s'.forwarders = s.forwarders.set i fw' ∧ s'.current = s.current ∧ Linked s'.links s'.socats ∧
      ∀ k ∈ s'.kills, k.own = true := by
  have hmine : s.links i = fw.links := by
    rw [State.links, hfw]
    rfl
  have hset : State.links { s with forwarders := s.forwarders.set i fw' } = update s.links i fw'.links :=
    links_set hfw
  generalize hl : fw.links = l at hre
  generalize hl' : fw'.links = l' at hre
  rw [hl'] at hset
  rw [hl] at hmine
  cases hre with
  | keep l =>
    cases hs
    refine ⟨rfl, rfl, ?_, h.kills⟩
    rw [hset, ← hmine, update_eq_self]
    exact h.linked
  | @spawn pid port args hc hp l =>
    subst hc
    obtain ⟨hfree, hs⟩ := Option.ite_none_left_eq_some.mp hs
    cases hs
    have hport := hok port (by rw [hfw]; exact hp)
    have hpid : ∀ q ∈ s.socats, q.pid = pid → q.status = .reaped := fun q hq hpid =>
      not_not.mp fun hne => hfree ⟨q, hq, hpid, hne⟩
    refine ⟨rfl, rfl, ?_, h.kills⟩
    show Linked (State.links { s with forwarders := s.forwarders.set i fw' }) _
    rw [hset, ← hmine]
    exact h.linked.spawn hpid hport
  | fail hc port l =>
    subst hc
    exact hok.elim
  | kill pid port a b =>
    cases hs
    obtain ⟨hlinked, hown⟩ := h.linked.kill hmine
    refine ⟨rfl, rfl, ?_, fun k hk => ?_⟩
    · show Linked (State.links { s with forwarders := s.forwarders.set i fw' }) _
      rw [hset]
      exact hlinked
    · rcases List.mem_cons.mp hk with rfl | hk
      · exact hown
      · exact h.kills k hk
  | drop port a b =>
    -- Every entry has the PID of a child.
    have hmem : ((none, port) : Link) ∈ s.links i := by
      rw [hmine]
      exact List.mem_append_right _ List.mem_cons_self
    obtain ⟨q, -, hlink, -, -⟩ := h.linked.entry i _ hmem
    cases (Prod.mk.inj hlink).1

theorem following_forward (h : Following s) (hok : Calm s (.forward i choice))
    (hs : step s (.forward i choice) = some s') : Following s' := by
  obtain ⟨fw, hfw, hs⟩ := Option.bind_eq_some_iff.mp hs
  obtain ⟨⟨eff, fw'⟩, hadv, hs⟩ := Option.bind_eq_some_iff.mp hs
  obtain ⟨hforwarders, hcurrent, hlinked, hkills⟩ := linked_apply h hfw (relinks_advance hadv) hok hs
  refine ⟨fun j g hg => ?_, fun j g hg hc => ?_, hlinked, hkills⟩
  · rw [hforwarders] at hg
    rcases get_set hfw hg with ⟨-, rfl⟩ | ⟨-, hg⟩
    · exact scanned_advance (h.scanned i fw hfw) hadv
    · exact h.scanned j g hg
  · rw [hforwarders] at hg
    rw [hcurrent]
    rcases get_set hfw hg with ⟨rfl, rfl⟩ | ⟨-, hg⟩
    · exact h.current j fw hfw ((advance_cancelled hadv).symm.trans hc)
    · exact h.current j g hg hc

theorem following_socat {j : ℕ} {e : Event} (h : Following s) (hok : Calm s (.socat j e))
    (hs : step s (.socat j e) = some s') : Following s' := by
  obtain ⟨q, hq, hs⟩ := Option.bind_eq_some_iff.mp hs
  obtain ⟨st, hst, rfl⟩ := Option.map_eq_some_iff.mp hs
  have hset : (st.live = q.status.live) → (st.claims = true → q.status.claims = true) →
      (q.status = .reaped → st = .reaped) → Following { s with socats := s.socats.set j { q with status := st } } :=
    fun hlive hclaims hreaped => ⟨h.scanned, h.current, h.linked.set hq hlive hclaims hreaped, h.kills⟩
  cases hqs : q.status with
  | starting =>
    rw [hqs, h.linked.not_busy hq hqs] at hst
    cases e with
    | exit => exact hok.elim
    | bind =>
      cases hst
      exact hset (by rw [hqs]; rfl) (by simp [hqs, Status.claims]) (by simp [hqs])
    | _ => cases hst
  | _ =>
    rw [hqs] at hst
    cases e <;> first | exact hok.elim | cases hst
    all_goals exact hset (by rw [hqs]; rfl) (by simp [Status.claims]) (by simp [hqs])

theorem following_step {a : Act} (h : Following s) (hok : Calm s a) (hs : step s a = some s') : Following s' := by
  cases a with
  | start =>
    obtain ⟨hnone, hs⟩ := Option.ite_none_left_eq_some.mp hs
    cases hs
    exact following_start h (by simpa using hnone)
  | stop =>
    obtain ⟨i, hcur, rfl⟩ := Option.map_eq_some_iff.mp hs
    exact following_stop h hcur
  | forward i choice => exact following_forward h hok hs
  | socat j e => exact following_socat h hok hs

end Step

theorem following_initial {s : State} (h : Initial s) : Following s := by
  subst h
  refine ⟨fun i fw hfw => ?_, fun i fw hfw => ?_, ⟨fun i l hl => absurd hl List.not_mem_nil,
    (List.forall_mem_nil _), fun _ => List.nodup_nil, fun j k a b ha => ?_, fun j k a b ha => ?_⟩,
    (List.forall_mem_nil _)⟩
  · rw [List.getElem?_nil] at hfw
    cases hfw
  · rw [List.getElem?_nil] at hfw
    cases hfw
  all_goals
    rw [List.getElem?_nil] at ha
    cases ha

/-! ### The result -/

/-- The living children that forward a port. -/
def forwarding (s : State) (port : ℕ) : List Socat :=
  s.socats.filter fun q => decide (q.port = port) && q.status.live

/-- The running forwarder has processed a scan, and no other one is left. -/
def Settled (s : State) (conns : List ConnStat) : Prop :=
  ∃ i fw, s.current = some i ∧ s.forwarders[i]? = some fw ∧ fw.pc = .idle ∧ fw.scanned = true ∧ fw.scan = conns ∧
    ∀ (j : ℕ) (g : Forwarder), s.forwarders[j]? = some g → g.cancelled = true → j ≠ i → g.pc = .finished

/-- In calm runs forwarding follows the scan: once the running forwarder has processed a scan and the
cancelled ones have finished, a port of the scan has one living child and any other port none.  SIGKILL is
sent only to the groups of children that the forwarder has started and nobody has reaped. -/
theorem reach_follows {s : State} (h : Reach step Calm Initial s) :
    (∀ conns, Settled s conns → ∀ port, (port ∈ conns.map ConnStat.localPort → (forwarding s port).length = 1) ∧
      (port ∉ conns.map ConnStat.localPort → forwarding s port = [])) ∧ ∀ k ∈ s.kills, k.own = true := by
  have hf : Following s := h.invariant (fun _ => following_initial) fun _ _ _ hi hok hs => following_step hi hok hs
  refine ⟨?_, hf.kills⟩
  rintro conns ⟨i, fw, hcur, hfw, hpc, hscanned, rfl, hothers⟩ port
  have hsc := hf.scanned i fw hfw
  rw [Scanned, hpc] at hsc
  obtain ⟨hkeys, hseen⟩ := hsc hscanned
  have hlinks : s.links i = fw.ports.rows.map PortToForward.link := by
    rw [State.links, hfw]
    show Forwarder.links fw = _
    rw [Forwarder.links, hpc]
  refine ⟨fun hport => ?_, fun hport => ?_⟩
  · obtain ⟨c, hc, rfl⟩ := List.mem_map.mp hport
    obtain ⟨e, he, hkey⟩ := hseen c hc
    obtain ⟨q, hq, hlink, -, hlive⟩ := hf.linked.entry i e.link (by rw [hlinks]; exact List.mem_map_of_mem he)
    have hqport : q.port = c.localPort := by
      rw [← (Prod.mk.inj hlink).2]
      exact (Prod.mk.inj hkey).2
    have hmem : q ∈ forwarding s c.localPort := List.mem_filter.mpr ⟨hq, by simp [hqport, hlive]⟩
    have hone : (forwarding s c.localPort).length ≤ 1 := by
      refine length_filter_le_one fun j k a b ha hb hpa hpb => ?_
      simp only [Bool.and_eq_true, decide_eq_true_eq] at hpa hpb
      exact hf.linked.ports j k a b ha hb (claims_of_live hpa.2) (claims_of_live hpb.2)
        (hpa.1.trans hpb.1.symm)
    have hpos := List.length_pos_of_mem hmem
    omega
  · refine List.filter_eq_nil_iff.mpr fun q hq hp => ?_
    simp only [Bool.and_eq_true, decide_eq_true_eq] at hp
    have hin := hf.linked.child q hq hp.2
    -- The child has an entry, and only the running forwarder has entries.
    cases hg : s.forwarders[q.owner]? with
    | none =>
      rw [State.links, hg] at hin
      exact absurd hin List.not_mem_nil
    | some g =>
      by_cases howner : q.owner = i
      · rw [howner, hlinks] at hin
        obtain ⟨e, he, hlink⟩ := List.mem_map.mp hin
        obtain ⟨c, hc, hkey⟩ := List.mem_map.mp (hkeys e he)
        refine hport (List.mem_map.mpr ⟨c, hc, ?_⟩)
        rw [← hp.1, ← (Prod.mk.inj hlink).2]
        exact (Prod.mk.inj hkey).2
      · have hcancelled : g.cancelled = true := by
          by_contra hc
          have hcur' := hf.current q.owner g hg (by simpa using hc)
          rw [hcur] at hcur'
          exact howner (Option.some.inj hcur').symm
        have hfin := hothers q.owner g hg hcancelled howner
        rw [State.links, hg] at hin
        change _ ∈ Forwarder.links g at hin
        rw [Forwarder.links, hfin] at hin
        exact absurd hin List.not_mem_nil

/-! ### Two runs -/

def noForwarder : State := ⟨[], [], none, []⟩

theorem settled_of_state {s : State} {i : ℕ} {conns : List ConnStat} (hcur : s.current = some i)
    (hi : (s.forwarders[i]?).map (fun fw => (fw.pc, fw.scanned, fw.scan)) = some (.idle, true, conns))
    (hothers : ∀ j < s.forwarders.length, j ≠ i → (s.forwarders[j]?).map Forwarder.pc = some .finished) :
    Settled s conns := by
  obtain ⟨fw, hfw, hfields⟩ := Option.map_eq_some_iff.mp hi
  obtain ⟨hpc, hfields⟩ := Prod.mk.inj hfields
  obtain ⟨hscanned, hscan⟩ := Prod.mk.inj hfields
  refine ⟨i, fw, hcur, hfw, hpc, hscanned, hscan, fun j g hg _ hj => ?_⟩
  have hpc := hothers j (List.getElem?_eq_some_iff.mp hg).1 hj
  rw [hg] at hpc
  exact Option.some.inj hpc

/-- A listener of `localhost`, over IPv4. -/
def listener (inode port : ℕ) : ConnStat := ⟨"127.0.0.1", port, "LISTEN", AF_INET, inode⟩

/-- Two listeners come, one goes, and the subsystem is restarted. -/
def restartRun : List Act :=
  [.start, .forward 0 (.scan [listener 1 8080, listener 2 3000]), .forward 0 (.spawned 100), .forward 0 (.spawned 101),
    .forward 0 .go, .forward 0 .go, .socat 0 .bind, .socat 1 .bind,
    .forward 0 (.scan [listener 2 3000]), .forward 0 .go, .forward 0 .go, .forward 0 .go, .forward 0 .go,
    .socat 0 .die, .socat 0 .reap,
    .stop, .start, .forward 0 .cancelled, .forward 0 .go, .forward 0 .go, .socat 1 .die, .socat 1 .reap,
    .forward 1 (.scan [listener 2 3000]), .forward 1 (.spawned 100), .forward 1 .go, .forward 1 .go, .socat 2 .bind]

theorem restart_run_follows :
    (forwarding (last step noForwarder restartRun) 3000).length = 1 ∧
      forwarding (last step noForwarder restartRun) 8080 = [] ∧
      ∀ k ∈ (last step noForwarder restartRun).kills, k.own = true := by
  have hadm : Admits step Calm noForwarder restartRun := by decide +kernel
  have hreach : Reach step Calm Initial (last step noForwarder restartRun) := .last rfl hadm
  have hsettled : Settled (last step noForwarder restartRun) [listener 2 3000] :=
    settled_of_state (i := 1) (by decide +kernel) (by decide +kernel) (by decide +kernel)
  obtain ⟨hports, hkills⟩ := reach_follows hreach
  exact ⟨(hports _ hsettled 3000).1 (by decide), (hports _ hsettled 8080).2 (by decide), hkills⟩

/-- A child exits and is reaped, and the next scan finds its listener. -/
def exitRun : List Act :=
  [.start, .forward 0 (.scan [listener 1 8080]), .forward 0 (.spawned 100), .forward 0 .go, .forward 0 .go,
    .socat 0 .bind, .socat 0 .exit, .socat 0 .reap,
    .forward 0 (.scan [listener 1 8080]), .forward 0 .go, .forward 0 .go, .forward 0 .go]

/-- The scan is processed and nothing forwards the port; when the listener goes, a group is killed that is not that of
a child. -/
theorem lost_child_not_replaced :
    (∃ s, exec step noForwarder exitRun = some s ∧ Settled s [listener 1 8080] ∧ forwarding s 8080 = []) ∧
      ∃ s, exec step noForwarder (exitRun ++ ([.forward 0 (.scan []), .forward 0 .go, .forward 0 .go] : List Act)) =
        some s ∧ s.kills = [⟨0, 100, false⟩] := by
  have hadm : Admits step (fun _ _ => True) noForwarder exitRun := by decide +kernel
  refine ⟨⟨last step noForwarder exitRun, ?_, ?_, ?_⟩, ?_⟩
  · exact exec_last hadm
  · exact settled_of_state (i := 0) (by decide +kernel) (by decide +kernel) (by decide +kernel)
  · decide +kernel
  · have hkills : (exec step noForwarder
        (exitRun ++ ([.forward 0 (.scan []), .forward 0 .go, .forward 0 .go] : List Act))).map State.kills =
          some [⟨0, 100, false⟩] := by decide +kernel
    exact Option.map_eq_some_iff.mp hkills

end Wrenn.Ports.Forwarding
