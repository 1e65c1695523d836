import Wrenn.Lib.Places
import Wrenn.PostInit.Model

/-!
# The order of `/init` requests

The gate compares the timestamps and the values are set afterwards, so a request that has passed it can be overtaken and
set its values last.  The token is validated and set in separate steps as well: two requests that both find no token set
may both go on, and the second one replaces or clears the token of the first.

* `Ordered`: if a request passes the gate only when no other one is behind it and still setting values, the defaults are
  those of the latest request;
* `Held`: if no two requests with a token are between validation and token step, the token of a request is
  still in force when it comes to this step;
* `reach_init_ordered`: the two results;
* `overtaken_requests_win`: runs without these conditions.
-/

namespace Wrenn.PostInit.Ordering

open Model Lib.Places Lib.Runs Function

/-! ### What a request gives -/

theorem given_append (d : Default) : ∀ ws ws' : List Write, given (ws ++ ws') d = (given ws' d).or (given ws d)
  | [], ws' => by simp [given]
  | w :: ws, ws' => by
    show (given (ws ++ ws') d).or _ = _
    rw [given_append d ws ws', Option.or_assoc]
    rfl

theorem writes_cons (op : Op) (left : List Op) : writes (op :: left) = op.write.toList ++ writes left := by
  cases h : op.write with
  | none | some w => simp [writes, h]

theorem writes_append (ops ops' : List Op) : writes (ops ++ ops') = writes ops ++ writes ops' :=
  List.filterMap_append

theorem get_set_default (ds : Defaults) (d d' : Default) (v : String) :
    (ds.set d v).get d' = if d = d' then some v else ds.get d' := by
  cases d with
  | env name =>
    cases d' with
    | env name' =>
      by_cases h : name = name'
      · subst h
        simp [Defaults.set, Defaults.get]
      · simp [Defaults.set, Defaults.get, h, AList.lookup_insert_ne (Ne.symm h)]
    | user | workdir => rfl
  | user | workdir => cases d' <;> rfl

/-! ### One operation -/

section Exec

variable (k : Shared) (op : Op)

theorem exec_get (d : Default) :
    (op.exec k).1.defaults.get d = (given op.write.toList d).or (k.defaults.get d) := by
  cases op with
  | set d' v =>
    show (k.defaults.set d' v).get d = _
    rw [get_set_default]
    by_cases h : d' = d
    all_goals simp [Op.write, given, h]
  | setToken t | checkToken | destroyToken => rfl

theorem exec_lastSetTime : (op.exec k).1.lastSetTime = k.lastSetTime := by cases op <;> rfl

theorem exec_next : writes (op.exec k).2 = [] := by
  cases op with
  | checkToken =>
    show writes (if _ then _ else _) = []
    split_ifs <;> rfl
  | _ => rfl

end Exec

/-! ### The gate -/

/-- Every request has a timestamp, and one passes the gate only when no other is setting its values. -/
def Gated (s : State) : Act → Prop
  | .post req _ => req.timestamp.isSome = true
  | .move i weak => ∀ c ∈ s.calls[i]?, c.pc.passes s.shared weak = true → ∀ c' ∈ s.calls, c'.pc.underway = false

instance (s : State) : ∀ a, Decidable (Gated s a)
  | .post req _ => inferInstanceAs (Decidable (req.timestamp.isSome = true))
  | .move i weak => inferInstanceAs (Decidable (∀ c ∈ s.calls[i]?, c.pc.passes s.shared weak = true →
      ∀ c' ∈ s.calls, c'.pc.underway = false))

def Timed (c : Call) : Prop :=
  c.req.timestamp.isSome = true ∧
    match c.pc with
    | .load nanos => c.nanos = nanos
    | .exchange nanos current => c.nanos = nanos ∧ current < nanos
    | _ => True

/-- The steps of a request, as far as the gate and the defaults are concerned. -/
inductive Advance (c : Call) (k : Shared) (weak : Bool) : Shared → Pc → Prop
  | before {k' : Shared} {pc : Pc} (hc : c.pc.accepted = false) (hpc : pc.accepted = false)
    (hd : k'.defaults = k.defaults) (ht : k'.lastSetTime = k.lastSetTime) (htimed : Timed { c with pc := pc }) :
    Advance c k weak k' pc
  | pass (hc : c.pc.accepted = false) (hp : c.pc.passes k weak = true) (ht : k.lastSetTime < c.nanos) :
    Advance c k weak { k with lastSetTime := c.nanos } (.applying c.ops)
  | op {op : Op} {left : List Op} (hc : c.pc = .applying (op :: left)) :
    Advance c k weak (op.exec k).1 (.applying ((op.exec k).2 ++ left))
  | finish (hc : c.pc = .applying []) : Advance c k weak k (.returned .applied)

theorem refresh_fields (k : Shared) (id : Option String) :
    ∃ lifecycleId refreshes, refresh k id = { k with lifecycleId := lifecycleId, refreshes := refreshes } := by
  cases id with
  | none => exact ⟨k.lifecycleId, k.refreshes, rfl⟩
  | some newId =>
    show ∃ lifecycleId refreshes, (if (bumpLifecycle k newId).2 then _ else _) = _
    split_ifs
    · exact ⟨some newId, k.refreshes + 1, rfl⟩
    · exact ⟨some newId, k.refreshes, rfl⟩

theorem advance_of_timed {c : Call} {k k' : Shared} {weak : Bool} {pc : Pc} (ht : Timed c)
    (h : c.advance k weak = some (k', pc)) : Advance c k weak k' pc := by
  obtain ⟨hsome, hpc⟩ := ht
  unfold Call.advance at h
  split at h <;> rename_i hc
  case h_4 =>
    cases h
    obtain ⟨nanos, hn⟩ := Option.isSome_iff_exists.mp hsome
    obtain ⟨lifecycleId, refreshes, hk⟩ := refresh_fields k c.req.lifecycleId
    rw [hn, hk]
    refine .before (by rw [hc]; rfl) rfl rfl rfl ⟨hsome, ?_⟩
    show c.req.timestamp.getD minTime = nanos
    rw [hn]
    rfl
  case h_5 =>
    cases h
    rw [hc] at hpc
    refine .before (by rw [hc]; rfl) ?_ rfl rfl ⟨hsome, ?_⟩
    · split_ifs <;> rfl
    · split_ifs with hle
      · trivial
      · exact ⟨hpc, by omega⟩
  case h_6 =>
    rw [hc] at hpc
    obtain ⟨hnanos, hlt⟩ := hpc
    split_ifs at h with hx <;> cases h
    · rw [← hnanos]
      refine .pass (by rw [hc]; rfl) (by rw [hc]; exact decide_eq_true hx) ?_
      rw [hx.1, hnanos]
      exact hlt
    · exact .before (by rw [hc]; rfl) rfl rfl rfl ⟨hsome, hnanos⟩
  case h_7 =>
    cases h
    exact .finish hc
  case h_8 =>
    cases h
    exact .op hc
  case h_9 => cases h
  all_goals
    -- the token is checked
    cases h
    refine .before (by rw [hc]; rfl) ?_ rfl rfl ⟨hsome, ?_⟩
    · split_ifs <;> rfl
    · split_ifs <;> trivial

/-! ### The latest request wins -/

/-- `seen i` is what the request `i` has set. -/
structure Ordered (seen : ℕ → List Write) (s : State) : Prop where
  timed : ∀ (i : ℕ) (c : Call), s.calls[i]? = some c → Timed c
  accepted : ∀ (i : ℕ) (c : Call), s.calls[i]? = some c → c.pc.accepted = true → c.nanos ≤ s.shared.lastSetTime
  underway : ∀ (i : ℕ) (c : Call), s.calls[i]? = some c → c.pc.underway = true → c.nanos = s.shared.lastSetTime
  distinct : ∀ (i j : ℕ) (c c' : Call), s.calls[i]? = some c → s.calls[j]? = some c' → c.pc.accepted = true →
    c'.pc.accepted = true → c.nanos = c'.nanos → i = j
  split : ∀ (i : ℕ) (c : Call), s.calls[i]? = some c → c.pc.accepted = true →
    writes c.ops = seen i ++ writes c.pc.left
  values : ∀ (i : ℕ) (c : Call), s.calls[i]? = some c → c.pc.accepted = true → ∀ d v, given (seen i) d = some v →
    s.shared.defaults.get d = some v ∨ ∃ j c', s.calls[j]? = some c' ∧ c'.pc.accepted = true ∧ c.nanos < c'.nanos ∧
      (given (seen j) d).isSome = true

theorem accepted_of_underway {pc : Pc} (h : pc.underway = true) : pc.accepted = true := by
  cases pc with
  | applying left => rfl
  | _ => cases h

theorem timed_of_accepted {c : Call} (hsome : c.req.timestamp.isSome = true) (hacc : c.pc.accepted = true) :
    Timed c := by
  refine ⟨hsome, ?_⟩
  cases hpc : c.pc with
  | load _ | exchange _ _ =>
    rw [hpc] at hacc
    cases hacc
  | _ => trivial

section Ordered

variable {seen : ℕ → List Write} {s : State} {i : ℕ} {c : Call}

theorem Ordered.post (h : Ordered seen s) {req : InitRequest} {hosts : Bool} (hreq : req.timestamp.isSome = true) :
    Ordered seen { s with calls := s.calls ++ [.initial req hosts] } := by
  have hinit : (Call.initial req hosts).pc = .lifecycle ∨ ∃ token, (Call.initial req hosts).pc = .validate token := by
    show req.accessToken.elim Pc.lifecycle Pc.validate = _ ∨ ∃ token, req.accessToken.elim Pc.lifecycle Pc.validate = _
    cases req.accessToken with
    | none => exact .inl rfl
    | some token => exact .inr ⟨token, rfl⟩
  have hpc : (Call.initial req hosts).pc.accepted = false := by
    rcases hinit with hinit | ⟨token, hinit⟩
    all_goals
      rw [hinit]
      rfl
  have hold : ∀ (j : ℕ) (c' : Call), (s.calls ++ [.initial req hosts])[j]? = some c' → c'.pc.accepted = true →
      s.calls[j]? = some c' := by
    intro j c' hc' hacc
    rcases get_append_new hc' with hc' | ⟨-, rfl⟩
    · exact hc'
    · rw [hpc] at hacc
      cases hacc
  refine ⟨fun j c' hc' => ?_, fun j c' hc' hacc => h.accepted j c' (hold j c' hc' hacc) hacc, fun j c' hc' happ => ?_,
    fun j j' c c' hc hc' hacc hacc' => h.distinct j j' c c' (hold j c hc hacc) (hold j' c' hc' hacc') hacc hacc',
    fun j c' hc' hacc => h.split j c' (hold j c' hc' hacc) hacc, fun j c' hc' hacc d v hv => ?_⟩
  · rcases get_append_new hc' with hc' | ⟨-, rfl⟩
    · exact h.timed j c' hc'
    · refine ⟨hreq, ?_⟩
      rcases hinit with hinit | ⟨token, hinit⟩
      all_goals simp only [hinit]
  · exact h.underway j c' (hold j c' hc' (accepted_of_underway happ)) happ
  · rcases h.values j c' (hold j c' hc' hacc) hacc d v hv with hval | ⟨l, cl, hl, hrest⟩
    · exact .inl hval
    · exact .inr ⟨l, cl, get_append_old hl, hrest⟩

/-- A request behind the gate is not the one that was before it. -/
theorem get_set_accepted {j : ℕ} {c0 c' : Call} (hc : s.calls[i]? = some c) (hacc : c.pc.accepted = false)
    (hj : s.calls[j]? = some c') (hacc' : c'.pc.accepted = true) : j ≠ i ∧ (s.calls.set i c0)[j]? = some c' := by
  have hji : j ≠ i := by
    rintro rfl
    rw [hc] at hj
    cases hj
    rw [hacc] at hacc'
    cases hacc'
  exact ⟨hji, by rwa [List.getElem?_set_ne hji.symm]⟩

/-- A request that has not passed the gate. -/
theorem Ordered.before (h : Ordered seen s) (hc : s.calls[i]? = some c) {k : Shared} {pc : Pc}
    (hacc : c.pc.accepted = false) (hpc : pc.accepted = false) (hd : k.defaults = s.shared.defaults)
    (ht : k.lastSetTime = s.shared.lastSetTime) (htimed : Timed { c with pc := pc }) :
    Ordered seen ⟨k, s.calls.set i { c with pc := pc }⟩ := by
  have hold : ∀ (j : ℕ) (c' : Call), (s.calls.set i { c with pc := pc })[j]? = some c' → c'.pc.accepted = true →
      s.calls[j]? = some c' := by
    intro j c' hc' hacc'
    rcases get_set hc hc' with ⟨-, rfl⟩ | ⟨-, hc'⟩
    · rw [hpc] at hacc'
      cases hacc'
    · exact hc'
  refine ⟨fun j c' hc' => ?_, fun j c' hc' ha => ?_, fun j c' hc' ha => ?_,
    fun j j' c1 c2 h1 h2 ha1 ha2 => h.distinct j j' c1 c2 (hold j c1 h1 ha1) (hold j' c2 h2 ha2) ha1 ha2,
    fun j c' hc' ha => h.split j c' (hold j c' hc' ha) ha, fun j c' hc' ha d v hv => ?_⟩
  · rcases get_set hc hc' with ⟨-, rfl⟩ | ⟨-, hc'⟩
    · exact htimed
    · exact h.timed j c' hc'
  · show c'.nanos ≤ k.lastSetTime
    rw [ht]
    exact h.accepted j c' (hold j c' hc' ha) ha
  · show c'.nanos = k.lastSetTime
    rw [ht]
    exact h.underway j c' (hold j c' hc' (accepted_of_underway ha)) ha
  · show k.defaults.get d = some v ∨ _
    rw [hd]
    rcases h.values j c' (hold j c' hc' ha) ha d v hv with hval | ⟨l, cl, hl, hacl, hrest⟩
    · exact .inl hval
    · exact .inr ⟨l, cl, (get_set_accepted hc hacc hl hacl).2, hacl, hrest⟩

/-- A request passes the gate. -/
theorem Ordered.pass (h : Ordered seen s) (hc : s.calls[i]? = some c) (hacc : c.pc.accepted = false)
    (hlt : s.shared.lastSetTime < c.nanos) (hidle : ∀ c' ∈ s.calls, c'.pc.underway = false) :
    Ordered (update seen i [])
      ⟨{ s.shared with lastSetTime := c.nanos }, s.calls.set i { c with pc := .applying c.ops }⟩ := by
  -- The others that have passed are older.
  have hold : ∀ (j : ℕ) (c' : Call), j ≠ i → s.calls[j]? = some c' → c'.pc.accepted = true → c'.nanos < c.nanos :=
    fun j c' _ hc' ha => Int.lt_of_le_of_lt (h.accepted j c' hc' ha) hlt
  refine ⟨fun j c' hc' => ?_, fun j c' hc' ha => ?_, fun j c' hc' ha => ?_, fun j j' c1 c2 h1 h2 ha1 ha2 heq => ?_,
    fun j c' hc' ha => ?_, fun j c' hc' ha d v hv => ?_⟩
  · rcases get_set hc hc' with ⟨-, rfl⟩ | ⟨-, hc'⟩
    · exact timed_of_accepted (h.timed i c hc).1 rfl
    · exact h.timed j c' hc'
  · rcases get_set hc hc' with ⟨-, rfl⟩ | ⟨hj, hc'⟩
    · exact Int.le_refl _
    · exact Int.le_of_lt (hold j c' hj hc' ha)
  · rcases get_set hc hc' with ⟨-, rfl⟩ | ⟨-, hc'⟩
    · rfl
    · rw [hidle c' (List.mem_of_getElem? hc')] at ha
      cases ha
  · rcases get_set hc h1 with ⟨rfl, rfl⟩ | ⟨hj, hold1⟩
    · rcases get_set hc h2 with ⟨rfl, -⟩ | ⟨hj', hold2⟩
      · rfl
      · exact absurd heq.symm (Int.ne_of_lt (hold j' c2 hj' hold2 ha2))
    · rcases get_set hc h2 with ⟨rfl, rfl⟩ | ⟨-, hold2⟩
      · exact absurd heq (Int.ne_of_lt (hold j c1 hj hold1 ha1))
      · exact h.distinct j j' c1 c2 hold1 hold2 ha1 ha2 heq
  · rcases get_set hc hc' with ⟨rfl, rfl⟩ | ⟨hj, hc'⟩
    · rw [update_self]
      rfl
    · rw [update_of_ne hj]
      exact h.split j c' hc' ha
  · rcases get_set hc hc' with ⟨rfl, rfl⟩ | ⟨hj, hc'⟩
    · rw [update_self] at hv
      cases hv
    · rw [update_of_ne hj] at hv
      rcases h.values j c' hc' ha d v hv with hval | ⟨l, cl, hl, hacl, hlt', hsome⟩
      · exact .inl hval
      · obtain ⟨hli, hl'⟩ := get_set_accepted hc hacc hl hacl
        refine .inr ⟨l, cl, hl', hacl, hlt', ?_⟩
        rw [update_of_ne hli]
        exact hsome

/-- A request behind the gate sets the values `ws`. -/
theorem Ordered.behind (h : Ordered seen s) {k : Shared} {pc : Pc} {ws : List Write} (hc : s.calls[i]? = some c)
    (hunder : c.pc.underway = true) (hpc : pc.accepted = true) (hleft : writes c.pc.left = ws ++ writes pc.left)
    (htime : k.lastSetTime = s.shared.lastSetTime)
    (hget : ∀ d, k.defaults.get d = (given ws d).or (s.shared.defaults.get d)) :
    Ordered (update seen i (seen i ++ ws)) ⟨k, s.calls.set i { c with pc := pc }⟩ := by
  have hacc := accepted_of_underway hunder
  have hold : ∀ (j : ℕ) (c' : Call), (s.calls.set i { c with pc := pc })[j]? = some c' → c'.pc.accepted = true →
      ∃ c0, s.calls[j]? = some c0 ∧ c0.pc.accepted = true ∧ c0.nanos = c'.nanos := by
    intro j c' hc' ha
    rcases get_set hc hc' with ⟨rfl, rfl⟩ | ⟨-, hc'⟩
    · exact ⟨c, hc, hacc, rfl⟩
    · exact ⟨c', hc', ha, rfl⟩
  refine ⟨fun j c' hc' => ?_, fun j c' hc' ha => ?_, fun j c' hc' ha => ?_, fun j j' c1 c2 h1 h2 ha1 ha2 heq => ?_,
    fun j c' hc' ha => ?_, fun j c' hc' ha d v hv => ?_⟩
  · rcases get_set hc hc' with ⟨-, rfl⟩ | ⟨-, hc'⟩
    · exact timed_of_accepted (h.timed i c hc).1 hpc
    · exact h.timed j c' hc'
  · obtain ⟨c0, hc0, ha0, hn⟩ := hold j c' hc' ha
    show c'.nanos ≤ k.lastSetTime
    rw [htime, ← hn]
    exact h.accepted j c0 hc0 ha0
  · show c'.nanos = k.lastSetTime
    rw [htime]
    rcases get_set hc hc' with ⟨-, rfl⟩ | ⟨-, hc'⟩
    · exact h.underway i c hc hunder
    · exact h.underway j c' hc' ha
  · obtain ⟨c3, h3, ha3, hn3⟩ := hold j c1 h1 ha1
    obtain ⟨c4, h4, ha4, hn4⟩ := hold j' c2 h2 ha2
    exact h.distinct j j' c3 c4 h3 h4 ha3 ha4 (hn3.trans (heq.trans hn4.symm))
  · rcases get_set hc hc' with ⟨rfl, rfl⟩ | ⟨hj, hc'⟩
    · rw [update_self, List.append_assoc, ← hleft]
      exact h.split j c hc hacc
    · rw [update_of_ne hj]
      exact h.split j c' hc' ha
  · obtain ⟨c0, hc0, ha0, hn⟩ := hold j c' hc' ha
    show k.defaults.get d = some v ∨ _
    rw [hget]
    cases hw : given ws d with
    | none =>
      -- The default is not touched.
      have hseen : ∀ l, given (update seen i (seen i ++ ws) l) d = given (seen l) d := by
        intro l
        by_cases hl : l = i
        · subst hl
          rw [update_self, given_append, hw, Option.none_or]
        · rw [update_of_ne hl]
      rw [hseen] at hv
      rcases h.values j c0 hc0 ha0 d v hv with hval | ⟨l, cl, hl, hacl, hlt, hsome⟩
      · exact .inl hval
      · rw [← hseen] at hsome
        by_cases hli : l = i
        · subst hli
          rw [hc] at hl
          cases hl
          exact .inr ⟨l, _, get_set_self hc, hpc, hn ▸ hlt, hsome⟩
        · refine .inr ⟨l, cl, ?_, hacl, hn ▸ hlt, hsome⟩
          rw [List.getElem?_set_ne (Ne.symm hli)]
          exact hl
    | some x =>
      by_cases hj : j = i
      · subst hj
        rw [update_self, given_append, hw] at hv
        exact .inl hv
      · -- The request that sets it is the latest one.
        have hle := h.accepted j c0 hc0 ha0
        have heq := h.underway i c hc hunder
        have hne : c0.nanos ≠ c.nanos := fun hn => hj (h.distinct j i c0 c hc0 hc ha0 hacc hn)
        refine .inr ⟨i, _, get_set_self hc, hpc, ?_, ?_⟩
        · show c'.nanos < c.nanos
          omega
        · rw [update_self, given_append, hw]
          rfl

theorem ordered_step {a : Act} {s' : State} (h : Ordered seen s) (hok : Gated s a) (hs : step s a = some s') :
    ∃ seen', Ordered seen' s' := by
  cases a with
  | post req hosts =>
    cases hs
    exact ⟨seen, h.post hok⟩
  | move i weak =>
    obtain ⟨c, hc, hs⟩ := Option.bind_eq_some_iff.mp hs
    obtain ⟨⟨k, pc⟩, hadv, rfl⟩ := Option.map_eq_some_iff.mp hs
    cases advance_of_timed (h.timed i c hc) hadv with
    | before hacc hpc hd ht htimed => exact ⟨seen, h.before hc hacc hpc hd ht htimed⟩
    | pass hacc hp hlt => exact ⟨_, h.pass hc hacc hlt (hok c (by rw [hc]; rfl) hp)⟩
    | @op op left hpc =>
      have hleft : writes c.pc.left = op.write.toList ++ writes (Pc.applying ((op.exec s.shared).2 ++ left)).left := by
        rw [hpc]
        show writes (op :: left) = _ ++ writes (_ ++ left)
        rw [writes_cons, writes_append, exec_next, List.nil_append]
      exact ⟨_, h.behind hc (by rw [hpc]; rfl) rfl hleft (exec_lastSetTime ..) (exec_get s.shared op)⟩
    | finish hpc =>
      have hleft : writes c.pc.left = [] ++ writes (Pc.returned .applied).left := by
        rw [hpc]
        rfl
      exact ⟨_, h.behind hc (by rw [hpc]; rfl) rfl hleft rfl fun d => rfl⟩

theorem reach_ordered (h : Reach step Gated Initial s) : ∃ seen, Ordered seen s := by
  refine h.invariant (I := fun s => ∃ seen, Ordered seen s) ?_ ?_
  · rintro s ⟨user, rfl⟩
    have hnone : ∀ (i : ℕ) (c : Call), (booted user).calls[i]? ≠ some c := by
      rintro i c ⟨⟩
    exact ⟨fun _ => [], fun i c hc => absurd hc (hnone i c), fun i c hc => absurd hc (hnone i c),
      fun i c hc => absurd hc (hnone i c), fun i j c c' hc => absurd hc (hnone i c),
      fun i c hc => absurd hc (hnone i c), fun i c hc => absurd hc (hnone i c)⟩
  · rintro s a s' ⟨seen, hord⟩ hok hs
    exact ordered_step hord hok hs

end Ordered

/-! ### The token in force -/

/-- Validation begins only when no other request is between validation and token step. -/
def Owned (s : State) : Act → Prop
  | .post _ _ => True
  | .move i _ => ∀ c ∈ s.calls[i]?, c.pc.validates = true → ∀ c' ∈ s.calls, c'.window = false

instance (s : State) : ∀ a, Decidable (Owned s a)
  | .post _ _ => isTrue trivial
  | .move i _ => inferInstanceAs (Decidable (∀ c ∈ s.calls[i]?, c.pc.validates = true →
      ∀ c' ∈ s.calls, c'.window = false))

/-- The token that a request has in hand is that of its body. -/
def Carried (c : Call) : Prop :=
  match c.pc with
  | .validate token | .compare token | .recheck token => c.req.accessToken = some token
  | .applying left => ∀ op ∈ left, op.ofToken = true → op ∈ tokenOps c.req.accessToken
  | _ => True

theorem carried_ops (c : Call) : ∀ op ∈ c.ops, op.ofToken = true → op ∈ tokenOps c.req.accessToken := by
  intro op hop htoken
  simp only [Call.ops, InitRequest.ops, List.mem_append, Option.mem_toList, Option.map_eq_some_iff] at hop
  rcases hop with ((((((hop | hop) | hop) | hop) | hop) | hop) | hop) | hop
  · cases hvars : c.req.envVars with
    | none =>
      rw [hvars] at hop
      exact absurd hop List.not_mem_nil
    | some vars =>
      rw [hvars] at hop
      obtain ⟨e, -, rfl⟩ := List.mem_map.mp hop
      cases htoken
  · exact hop
  all_goals
    obtain ⟨v, -, rfl⟩ := hop
    cases htoken

theorem mem_tokenOps {op : Op} {token : Option String} (h : op ∈ tokenOps token) :
    ∃ t, token = some t ∧ (t ≠ "" ∧ op = .setToken t ∨ t = "" ∧ op = .checkToken) := by
  cases token with
  | none => exact absurd h List.not_mem_nil
  | some t =>
    change op ∈ (if t ≠ "" then [Op.setToken t] else [Op.checkToken]) at h
    split_ifs at h with ht
    · exact ⟨t, rfl, .inl ⟨ht, List.mem_singleton.mp h⟩⟩
    · exact ⟨t, rfl, .inr ⟨not_not.mp ht, List.mem_singleton.mp h⟩⟩

structure Held (s : State) : Prop where
  sole : ∀ (i j : ℕ) (c c' : Call), s.calls[i]? = some c → s.calls[j]? = some c' → c.window = true →
    c'.window = true → i = j
  carried : ∀ (i : ℕ) (c : Call), s.calls[i]? = some c → Carried c
  held : ∀ (i : ℕ) (c : Call), s.calls[i]? = some c → c.window = true → c.pc.checked = true →
    ∀ t ∈ s.shared.accessToken, c.req.accessToken = some t.val

section Held

variable {s : State} {i : ℕ} {c : Call} {k : Shared} {pc : Pc}

theorem Held.move (h : Held s) (hc : s.calls[i]? = some c)
    (hwindow : ({ c with pc := pc } : Call).window = true → c.window = true ∨ ∀ c' ∈ s.calls, c'.window = false)
    (htoken : k.accessToken = s.shared.accessToken ∨ c.window = true) (hcarried : Carried { c with pc := pc })
    (hheld : ({ c with pc := pc } : Call).window = true → pc.checked = true →
      ∀ t ∈ k.accessToken, c.req.accessToken = some t.val) :
    Held ⟨k, s.calls.set i { c with pc := pc }⟩ := by
  -- If the one that moves is in its window, no other is.
  have hother : ∀ (j : ℕ) (c' : Call), j ≠ i → s.calls[j]? = some c' → c'.window = true →
      ({ c with pc := pc } : Call).window = true → False := by
    intro j c' hj hc' hw' hw
    rcases hwindow hw with hw | hnone
    · exact hj (h.sole j i c' c hc' hc hw' hw)
    · rw [hnone c' (List.mem_of_getElem? hc')] at hw'
      cases hw'
  refine ⟨fun j j' c1 c2 h1 h2 hw1 hw2 => ?_, fun j c' hc' => ?_, fun j c' hc' hw hch t ht => ?_⟩
  · rcases get_set hc h1 with ⟨rfl, rfl⟩ | ⟨hj, hold1⟩
    · rcases get_set hc h2 with ⟨rfl, -⟩ | ⟨hj', hold2⟩
      · rfl
      · exact (hother j' c2 hj' hold2 hw2 hw1).elim
    · rcases get_set hc h2 with ⟨rfl, rfl⟩ | ⟨-, hold2⟩
      · exact (hother j c1 hj hold1 hw1 hw2).elim
      · exact h.sole j j' c1 c2 hold1 hold2 hw1 hw2
  · rcases get_set hc hc' with ⟨-, rfl⟩ | ⟨-, hc'⟩
    · exact hcarried
    · exact h.carried j c' hc'
  · rcases get_set hc hc' with ⟨-, rfl⟩ | ⟨hj, hold⟩
    · exact hheld hw hch t ht
    · rcases htoken with htoken | hw'
      · refine h.held j c' hold hw hch t ?_
        rw [← htoken]
        exact ht
      · exact absurd (h.sole j i c' c hold hc hw hw') hj

theorem isSome_of_window (h : c.window = true) : c.req.accessToken.isSome = true := ((Bool.and_eq_true _ _).mp h).1

/-- A step that leaves the token alone, behind validation. -/
theorem Held.keep (h : Held s) (hc : s.calls[i]? = some c) (hk : k.accessToken = s.shared.accessToken)
    (hchecked : c.pc.checked = true) (hwindow : ({ c with pc := pc } : Call).window = true → c.window = true)
    (hcarried : Carried { c with pc := pc }) : Held ⟨k, s.calls.set i { c with pc := pc }⟩ := by
  refine h.move hc (fun hw => .inl (hwindow hw)) (.inl hk) hcarried fun hw _ t ht => ?_
  rw [hk] at ht
  exact h.held i c hc (hwindow hw) hchecked t ht

/-- A step after the gate. -/
theorem Held.op (h : Held s) (hc : s.calls[i]? = some c) {op : Op} {left : List Op}
    (hpc : c.pc = .applying (op :: left)) :
    Held ⟨(op.exec s.shared).1, s.calls.set i { c with pc := .applying ((op.exec s.shared).2 ++ left) }⟩ ∧
      ∀ t ∈ s.shared.accessToken, (op.exec s.shared).1.accessToken = some t ∨ c.req.accessToken = some t.val := by
  have hcarried := h.carried i c hc
  rw [Carried, hpc] at hcarried
  have hleft : Carried { c with pc := .applying left } := fun o ho => hcarried o (List.mem_cons_of_mem _ ho)
  have hin : ({ c with pc := .applying left } : Call).window = true → c.window = true := by
    intro hw
    obtain ⟨hsome, hany⟩ := (Bool.and_eq_true _ _).mp hw
    simp only [Call.window, hpc, hsome, List.any_cons, Bool.true_and]
    change left.any Op.ofToken = true at hany
    rw [hany, Bool.or_true]
  have hchecked : c.pc.checked = true := by
    rw [hpc]
    rfl
  cases hop : op.ofToken with
  | false =>
    cases op with
    | set d v => exact ⟨h.keep hc rfl hchecked hin hleft, fun t ht => .inl ht⟩
    | _ => cases hop
  | true =>
    obtain ⟨token, htoken, hkind⟩ := mem_tokenOps (hcarried op List.mem_cons_self hop)
    have hw : c.window = true := by simp [Call.window, hpc, htoken, hop]
    -- The token in force is the one the request has.
    have hforce := h.held i c hc hw hchecked
    rcases hkind with ⟨hne, rfl⟩ | ⟨rfl, rfl⟩
    · refine ⟨h.move hc (fun _ => .inl hw) (.inr hw) hleft fun _ _ t ht => ?_, fun t ht => .inr (hforce t ht)⟩
      have hset : (s.shared.accessToken.set token).toOption = some (some ⟨token, hne⟩) := by
        simp [SecureToken.set, hne, Except.toOption]
      change t ∈ ((s.shared.accessToken.set token).toOption.getD s.shared.accessToken) at ht
      rw [hset] at ht
      cases ht
      exact htoken
    · have hunset : s.shared.accessToken = none := by
        by_contra hne
        obtain ⟨t, ht⟩ := Option.ne_none_iff_exists'.mp hne
        rw [htoken] at hforce
        exact t.property (Option.some.inj (hforce t ht)).symm
      have hnext : (Op.checkToken.exec s.shared).2 = [] := by
        show (if s.shared.accessToken.isSet then _ else _) = _
        rw [hunset]
        rfl
      rw [hnext]
      exact ⟨h.keep hc rfl hchecked hin hleft, fun t ht => .inl ht⟩

theorem Held.advance (h : Held s) {weak : Bool} (hok : Owned s (.move i weak)) (hc : s.calls[i]? = some c)
    (hadv : c.advance s.shared weak = some (k, pc)) :
    Held ⟨k, s.calls.set i { c with pc := pc }⟩ ∧
      ∀ t ∈ s.shared.accessToken, k.accessToken = some t ∨ c.req.accessToken = some t.val := by
  have hcarried := h.carried i c hc
  unfold Call.advance at hadv
  split at hadv
  · rename_i token hpc
    rw [Carried, hpc] at hcarried
    cases hadv
    have hnone := hok c (by rw [hc]; rfl) (by rw [hpc]; rfl)
    refine ⟨h.move hc (fun _ => .inr hnone) (.inl rfl) ?_ fun _ hch => ?_, fun t ht => .inl ht⟩
    · split_ifs <;> exact hcarried
    · split_ifs at hch <;> cases hch
  · rename_i token hpc
    rw [Carried, hpc] at hcarried
    cases hadv
    have hw : c.window = true := by simp [Call.window, hpc, hcarried]
    refine ⟨h.move hc (fun _ => .inl hw) (.inl rfl) ?_ fun _ hch t ht => ?_, fun t ht => .inl ht⟩
    · split_ifs
      · trivial
      · exact hcarried
    · split_ifs at hch with heq
      · rw [ht] at heq
        rw [hcarried, of_decide_eq_true heq]
      · cases hch
  · rename_i token hpc
    rw [Carried, hpc] at hcarried
    cases hadv
    have hw : c.window = true := by simp [Call.window, hpc, hcarried]
    refine ⟨h.move hc (fun _ => .inl hw) (.inl rfl) ?_ fun hw' _ t ht => ?_, fun t ht => .inl ht⟩
    · split_ifs <;> trivial
    · rw [ht] at hw'
      obtain ⟨-, hw'⟩ := (Bool.and_eq_true _ _).mp hw'
      cases hw'
  · rename_i hpc
    cases hadv
    have hin : ∀ pc, ({ c with pc := pc } : Call).window = true → c.window = true := by
      intro pc hw
      simp [Call.window, hpc, isSome_of_window hw]
    obtain ⟨lifecycleId, refreshes, hk⟩ := refresh_fields s.shared c.req.lifecycleId
    rw [hk]
    refine ⟨h.keep hc rfl (by rw [hpc]; rfl) (hin _) ?_, fun t ht => .inl ht⟩
    cases c.req.timestamp with
    | none => exact carried_ops c
    | some nanos => trivial
  · rename_i nanos hpc
    cases hadv
    refine ⟨h.keep hc rfl (by rw [hpc]; rfl) (fun hw => ?_) ?_, fun t ht => .inl ht⟩
    · simp [Call.window, hpc, isSome_of_window hw]
    · split_ifs <;> trivial
  · rename_i nanos current hpc
    have hin : ∀ pc, ({ c with pc := pc } : Call).window = true → c.window = true := by
      intro pc hw
      simp [Call.window, hpc, isSome_of_window hw]
    split_ifs at hadv
    · cases hadv
      exact ⟨h.keep hc rfl (by rw [hpc]; rfl) (hin _) (carried_ops c), fun t ht => .inl ht⟩
    · cases hadv
      exact ⟨h.keep hc rfl (by rw [hpc]; rfl) (hin _) trivial, fun t ht => .inl ht⟩
  · rename_i hpc
    cases hadv
    refine ⟨h.keep hc rfl (by rw [hpc]; rfl) (fun hw => ?_) trivial, fun t ht => .inl ht⟩
    obtain ⟨-, hw⟩ := (Bool.and_eq_true _ _).mp hw
    cases hw
  · rename_i op left hpc
    cases hadv
    exact h.op hc hpc
  · cases hadv

end Held

theorem held_step {s s' : State} {a : Act} (h : Held s) (hok : Owned s a) (hs : step s a = some s') :
    Held s' ∧ ∀ t ∈ s.shared.accessToken, s'.shared.accessToken = some t ∨
      ∃ i c weak, a = .move i weak ∧ s.calls[i]? = some c ∧ c.req.accessToken = some t.val := by
  cases a with
  | post req hosts =>
    cases hs
    have hinit : Carried (Call.initial req hosts) ∧ (Call.initial req hosts).window = false := by
      rw [Carried, Call.window, Call.initial]
      cases req.accessToken with
      | none => exact ⟨trivial, rfl⟩
      | some token => exact ⟨rfl, rfl⟩
    have hold : ∀ (j : ℕ) (c : Call), (s.calls ++ [.initial req hosts])[j]? = some c → c.window = true →
        s.calls[j]? = some c := by
      intro j c hc hw
      rcases get_append_new hc with hc | ⟨-, rfl⟩
      · exact hc
      · rw [hinit.2] at hw
        cases hw
    refine ⟨⟨fun i j c c' hc hc' hw hw' => h.sole i j c c' (hold i c hc hw) (hold j c' hc' hw') hw hw',
      fun i c hc => ?_,
      fun i c hc hw => h.held i c (hold i c hc hw) hw⟩, fun t ht => .inl ht⟩
    rcases get_append_new hc with hc | ⟨-, rfl⟩
    · exact h.carried i c hc
    · exact hinit.1
  | move i weak =>
    obtain ⟨c, hc, hs⟩ := Option.bind_eq_some_iff.mp hs
    obtain ⟨⟨k, pc⟩, hadv, rfl⟩ := Option.map_eq_some_iff.mp hs
    obtain ⟨hheld, htoken⟩ := h.advance hok hc hadv
    exact ⟨hheld, fun t ht => (htoken t ht).imp id fun hcarry => ⟨i, c, weak, rfl, hc, hcarry⟩⟩

theorem reach_held {s : State} (h : Reach step Owned Initial s) : Held s := by
  refine h.invariant ?_ fun s a s' hh hok hs => (held_step hh hok hs).1
  rintro s ⟨user, rfl⟩
  have hnone : ∀ (i : ℕ) (c : Call), (booted user).calls[i]? ≠ some c := by
    rintro i c ⟨⟩
  exact ⟨fun i j c c' hc => absurd hc (hnone i c), fun i c hc => absurd hc (hnone i c),
    fun i c hc => absurd hc (hnone i c)⟩

/-! ### The results -/

/-- Of the requests that have set the default, `c` has the greatest timestamp. -/
def Latest (s : State) (d : Default) (c : Call) : Prop :=
  c ∈ s.calls ∧ c.sets d = true ∧ ∀ c' ∈ s.calls, c'.sets d = true → c'.nanos ≤ c.nanos

theorem Ordered.latest {seen : ℕ → List Write} {s : State} (h : Ordered seen s)
    (hall : ∀ c ∈ s.calls, c.pc.returns = true) {d : Default} {c : Call} (hc : Latest s d c) :
    s.shared.defaults.get d = c.gives d := by
  -- What an applied request has set is what it gives.
  have hseen : ∀ (j : ℕ) (c' : Call), s.calls[j]? = some c' → c'.pc.accepted = true →
      c'.pc = .returned .applied ∧ given (seen j) d = c'.gives d := by
    intro j c' hc' hacc
    have hret := hall c' (List.mem_of_getElem? hc')
    have hsplit := h.split j c' hc' hacc
    cases hpc : c'.pc with
    | returned r =>
      rw [hpc] at hacc hsplit
      rw [show writes (Pc.returned r).left = [] from rfl, List.append_nil] at hsplit
      rw [Call.gives, hsplit]
      cases r with
      | applied => exact ⟨rfl, rfl⟩
      | unauthorized _ | stale => cases hacc
    | _ =>
      rw [hpc] at hret
      cases hret
  obtain ⟨hmem, hsets, hmax⟩ := hc
  obtain ⟨i, hi⟩ := List.mem_iff_getElem?.mp hmem
  obtain ⟨happlied, hsome⟩ := (Bool.and_eq_true _ _).mp hsets
  have hacc : c.pc.accepted = true := by
    rw [of_decide_eq_true happlied]
    rfl
  obtain ⟨v, hv⟩ := Option.isSome_iff_exists.mp hsome
  rw [hv]
  rcases h.values i c hi hacc d v ((hseen i c hi hacc).2.trans hv) with hval | ⟨j, c', hj, hacc', hlt, hsome'⟩
  · exact hval
  · obtain ⟨hpc', hgives⟩ := hseen j c' hj hacc'
    have hle := hmax c' (List.mem_of_getElem? hj) (by rw [Call.sets, hpc', ← hgives, hsome']; rfl)
    omega

/-- If a request passes the gate only when no other one is setting its values, then after all have returned each default
is that of the latest request that has set it.  If validation begins only when no other request with a token is between
validation and token step, a token in force is changed only by a request that carries it. -/
theorem reach_init_ordered (s : State) :
    (Reach step Gated Initial s → (∀ c ∈ s.calls, c.pc.returns = true) → ∀ d c, Latest s d c →
      s.shared.defaults.get d = c.gives d) ∧
    (Reach step Owned Initial s → ∀ a s', Owned s a → step s a = some s' → ∀ t, s.shared.accessToken = some t →
      s'.shared.accessToken = some t ∨
        ∃ i c weak, a = .move i weak ∧ s.calls[i]? = some c ∧ c.req.accessToken = some t.val) := by
  refine ⟨fun h hall d c hc => ?_, fun h a s' hok hs t ht => (held_step (reach_held h) hok hs).2 t ht⟩
  obtain ⟨seen, hord⟩ := reach_ordered h
  exact hord.latest hall hc

/-! ### Runs -/

/-- A request with a timestamp, and maybe a token, a user and a variable `MODE`. -/
def request (nanos : ℤ) (token user mode : Option String) : InitRequest :=
  ⟨token, user, none, mode.map fun m => (∅ : AList fun _ : String => String).insert "MODE" m, none,
    some nanos, none, none,
    none, none⟩

def moves (i n : ℕ) : List Act := List.replicate n (.move i false)

/-- The first request sets the token, the second one carries it and is later, and the third one comes late. -/
def orderedRun : List Act :=
  [.post (request 1 (some "key") (some "ann") (some "dev")) true] ++ moves 0 9 ++
    ([.post (request 3 (some "key") (some "bob") none) true] ++ moves 1 8) ++
    ([.post (request 2 none (some "cyd") (some "test")) true] ++ moves 2 2)

theorem ordered_run_latest :
    (last step (booted "root") orderedRun).shared.defaults.get .user = some "bob" ∧
      (last step (booted "root") orderedRun).shared.defaults.get (.env "MODE") = some "dev" ∧
      ∀ a s', Owned (last step (booted "root") orderedRun) a →
        step (last step (booted "root") orderedRun) a = some s' → s'.shared.accessToken = some ⟨"key", by decide⟩ ∨
          ∃ i c weak, a = .move i weak ∧ (last step (booted "root") orderedRun).calls[i]? = some c ∧
            c.req.accessToken = some "key" := by
  have hgated : Admits step Gated (booted "root") orderedRun := by decide +kernel
  have howned : Admits step Owned (booted "root") orderedRun := by decide +kernel
  have hall : ∀ c ∈ (last step (booted "root") orderedRun).calls, c.pc.returns = true := by decide +kernel
  obtain ⟨hvalues, htoken⟩ := reach_init_ordered (last step (booted "root") orderedRun)
  have hvalues := hvalues (.last ⟨"root", rfl⟩ hgated) hall
  refine ⟨?_, ?_, fun a s' hok hs => ?_⟩
  · exact hvalues .user ⟨request 3 (some "key") (some "bob") none, true, .returned .applied⟩
      ⟨List.mem_of_getElem? (i := 1) rfl, by decide +kernel, by decide +kernel⟩
  · exact hvalues (.env "MODE") ⟨request 1 (some "key") (some "ann") (some "dev"), true, .returned .applied⟩
      ⟨List.mem_of_getElem? (i := 0) rfl, by decide +kernel, by decide +kernel⟩
  · exact htoken (.last ⟨"root", rfl⟩ howned) a s' hok hs ⟨"key", by decide⟩ (by decide +kernel)

/-- The token, if the run goes through. -/
def tokenAfter (as : List Act) : Option (Option String) :=
  (exec step (booted "root") as).map fun s => s.shared.accessToken.map Subtype.val

/-- Three requests find no token set, and the first one sets it. -/
def tokenRun : List Act :=
  [.post (request 1 (some "key") none none) true] ++ moves 0 2 ++
    ([.post (request 2 (some "other") none none) true] ++ moves 1 2) ++
    ([.post (request 3 (some "") none none) true] ++ moves 2 2) ++ moves 0 5

/-- A request passes the gate and is overtaken by a later one, and its user stays.  A token in force is replaced by a
request with another token, and then cleared by one without. -/
theorem overtaken_requests_win :
    (exec step (booted "root") ([.post (request 1 none (some "ann") none) true] ++ moves 0 3 ++
        ([.post (request 2 none (some "bob") none) true] ++ moves 1 5) ++ moves 0 2)).map
          (fun s => (s.calls.map Call.pc, s.shared.defaults.user)) =
        some ([.returned .applied, .returned .applied], "ann") ∧
      tokenAfter tokenRun = some (some "key") ∧
      tokenAfter (tokenRun ++ moves 1 4) = some (some "other") ∧
      tokenAfter (tokenRun ++ moves 1 4 ++ moves 2 5) = some none := by
  decide +kernel

end Wrenn.PostInit.Ordering
