import ConjureRuntime.Blocking.ShimEnds
import ConjureRuntime.Blocking.ShimRuns

/-!
# The call that each side is at

A request in the channel belongs to a call that the body has not been made
for, each side is at the call that its state says, and every other call has
been left.
-/

namespace ConjureRuntime.Blocking

open ConjureRuntime.Foundation ConjureRuntime.Service

def Shim.request : Shim → Option ShimRequest
  | .sending request | .flushing request | .calling request => some request
  | .idle | .dropped => none

namespace System

variable {system system' : System} {event : Event}

/-! ## Where the sides are -/

structure ShimLinked (system : System) : Prop where
  sending : ∀ {request}, system.shim = .sending request →
    system.near request = some .requesting ∧
      system.far request = some .waiting ∧ request ∉ system.entered
  flushing : ∀ {request}, system.shim = .flushing request →
    system.near request = some .requesting ∧ request ∈ system.entered ∧
      ∀ last, system.requests.queue.getLast? = some last → last = request
  calling : ∀ {request}, system.shim = .calling request →
    system.near request = some .waiting ∧ request ∈ system.entered
  left : ∀ {request near}, system.near request = some near →
    system.shim.request = some request ∨ near = .left

structure ThreadLinked (system : System) : Prop where
  queue : ∀ request ∈ system.requests.queue,
    system.far request = some .waiting ∧ request ∈ system.entered
  nodup : system.requests.queue.Nodup
  serving : ∀ {request}, system.streamer = .serving request →
    system.far request = some .active ∧ request ∈ system.entered
  entered : ∀ request ∈ system.entered, request ∈ system.requests.queue ∨
    system.streamer = .serving request ∨ system.far request = some .gone
  gone : system.streamer = .gone → system.requests.queue = []

structure Linked (system : System) : Prop where
  shim : system.ShimLinked
  thread : system.ThreadLinked

theorem new_linked : new.Linked where
  shim := {
    sending := fun h => by cases h
    flushing := fun h => by cases h
    calling := fun h => by cases h
    left := fun {request near} h => by cases request <;> cases h }
  thread := {
    queue := fun _ h => by cases h
    nodup := List.nodup_nil
    serving := fun h => by cases h
    entered := fun _ h => by cases h
    gone := fun _ => rfl }

theorem ThreadLinked.known (h : system.ThreadLinked) {request : ShimRequest}
    (hmem : request ∈ system.entered) : system.far request ≠ none := by
  rcases h.entered request hmem with hqueue | hserving | hgone
  · rw [(h.queue request hqueue).1]
    simp
  · rw [(h.serving hserving).1]
    simp
  · rw [hgone]
    simp

structure SameThread (system system' : System) : Prop where
  queue : system'.requests.queue = system.requests.queue
  streamer : system'.streamer = system.streamer
  entered : system'.entered = system.entered

theorem SameThread.of_calls (h : CallsOnly system system') :
    SameThread system system' :=
  ⟨congrArg Channel.queue h.requests, h.streamer, h.entered⟩

/-! ## What a step does to the ends -/

inductive Shifts (system system' : System) : Prop where
  | called (request : ShimRequest) (idle : system.shim = .idle)
      (shim : system'.shim = .sending request)
      (fresh : system.far request = none)
      (near : system'.near request = some .requesting)
      (far : system'.far request = some .waiting)
      (touches : Touches request system system')
      (same : SameThread system system')
  | sent (request : ShimRequest) (sending : system.shim = .sending request)
      (shim : system'.shim = .flushing request)
      (there : system.streamer ≠ .gone)
      (near : system'.near = system.near) (far : system'.far = system.far)
      (queue : system'.requests.queue = system.requests.queue ++ [request])
      (streamer : system'.streamer = system.streamer)
      (entered : system'.entered = system.entered ++ [request])
  | unsent (request : ShimRequest) (sending : system.shim = .sending request)
      (shim : system'.shim = .idle)
      (near : system'.near request = some .left)
      (touches : Touches request system system')
      (same : SameThread system system')
  | goesOn (request : ShimRequest)
      (inCall : system.shim = .flushing request ∨
        system.shim = .calling request)
      (shim : system'.shim = .calling request)
      (near : system'.near request = some .waiting)
      (touches : Touches request system system')
      (far : system'.far = system.far)
      (same : SameThread system system')
  | left (request : ShimRequest)
      (inCall : system.shim = .flushing request ∨
        system.shim = .calling request)
      (shim : system'.shim = .idle)
      (near : system'.near request = some .left)
      (touches : Touches request system system')
      (far : system'.far = system.far)
      (same : SameThread system system')
  | closed (idle : system.shim = .idle) (shim : system'.shim = .dropped)
      (near : system'.near = system.near) (far : system'.far = system.far)
      (same : SameThread system system')
  | starts (request : ShimRequest) (receiving : system.streamer = .receiving)
      (shim : system'.shim = system.shim)
      (near : system'.near = system.near)
      (far : system'.far request = some .active)
      (touches : Touches request system system')
      (queue : system.requests.queue = request :: system'.requests.queue)
      (streamer : system'.streamer = .serving request)
      (entered : system'.entered = system.entered)
  | works (request : ShimRequest) (serving : system.streamer = .serving request)
      (shim : system'.shim = system.shim)
      (near : system'.near = system.near)
      (far : system'.far request = some .active)
      (touches : Touches request system system')
      (same : SameThread system system')
  | finishes (request : ShimRequest)
      (serving : system.streamer = .serving request)
      (shim : system'.shim = system.shim)
      (near : system'.near = system.near)
      (far : system'.far request = some .gone)
      (touches : Touches request system system')
      (queue : system'.requests.queue = system.requests.queue)
      (streamer : system'.streamer = .receiving)
      (entered : system'.entered = system.entered)
  | leaves (shim : system'.shim = system.shim)
      (near : system'.near = system.near)
      (ended : ∀ request, request ∈ system.requests.queue ∨
        system.streamer = .serving request → system'.far request = some .gone)
      (far : ∀ request, request ∉ system.requests.queue →
        system.streamer ≠ .serving request →
        system'.far request = system.far request)
      (queue : system'.requests.queue = [])
      (streamer : system'.streamer = .gone)
      (entered : system'.entered = system.entered)

/-! ## The thread's side of a step -/

section

variable {request : ShimRequest}

theorem ThreadLinked.congr (h : system.ThreadLinked)
    (same : SameThread system system')
    (hfar : ∀ other ∈ system.entered,
      system'.far other = system.far other) : system'.ThreadLinked where
  queue other hmem := by
    rw [same.queue] at hmem
    obtain ⟨hwaiting, hentered⟩ := h.queue other hmem
    rw [hfar other hentered, same.entered]
    exact ⟨hwaiting, hentered⟩
  nodup := same.queue ▸ h.nodup
  serving hserving := by
    obtain ⟨hactive, hentered⟩ := h.serving (same.streamer ▸ hserving)
    rw [hfar _ hentered, same.entered]
    exact ⟨hactive, hentered⟩
  entered other hmem := by
    rw [same.entered] at hmem
    rw [hfar other hmem, same.queue, same.streamer]
    exact h.entered other hmem
  gone hgone := by
    rw [same.queue]
    exact h.gone (same.streamer ▸ hgone)

theorem ThreadLinked.sent (h : system.ThreadLinked)
    (there : system.streamer ≠ .gone)
    (hwaiting : system.far request = some .waiting)
    (hnew : request ∉ system.entered)
    (far : system'.far = system.far)
    (queue : system'.requests.queue = system.requests.queue ++ [request])
    (streamer : system'.streamer = system.streamer)
    (entered : system'.entered = system.entered ++ [request]) :
    system'.ThreadLinked where
  queue other hmem := by
    rw [queue] at hmem
    rw [far, entered]
    rcases List.mem_append.mp hmem with hold | hlast
    · obtain ⟨hfar, hentered⟩ := h.queue other hold
      exact ⟨hfar, List.mem_append_left _ hentered⟩
    · rw [List.mem_singleton.mp hlast]
      exact ⟨hwaiting, List.mem_append_right _ (List.mem_singleton_self _)⟩
  nodup := by
    rw [queue]
    refine List.nodup_append.mpr ⟨h.nodup, by simp, ?_⟩
    intro other hother last hlast heq
    rw [heq, List.mem_singleton.mp hlast] at hother
    exact hnew (h.queue request hother).2
  serving hserving := by
    obtain ⟨hactive, hentered⟩ := h.serving (streamer ▸ hserving)
    rw [far, entered]
    exact ⟨hactive, List.mem_append_left _ hentered⟩
  entered other hmem := by
    rw [entered] at hmem
    rw [far, queue, streamer]
    rcases List.mem_append.mp hmem with hold | hlast
    · exact (h.entered other hold).imp_left (List.mem_append_left _)
    · exact .inl (List.mem_append_right _ hlast)
  gone hgone := absurd (streamer ▸ hgone) there

theorem ThreadLinked.starts (h : system.ThreadLinked)
    (receiving : system.streamer = .receiving)
    (far : system'.far request = some .active)
    (touches : Touches request system system')
    (queue : system.requests.queue = request :: system'.requests.queue)
    (streamer : system'.streamer = .serving request)
    (entered : system'.entered = system.entered) : system'.ThreadLinked := by
  have hnodup := h.nodup
  rw [queue] at hnodup
  obtain ⟨hfirst, hrest⟩ := List.nodup_cons.mp hnodup
  have hmem : request ∈ system.requests.queue := queue ▸ List.mem_cons_self
  refine ⟨fun other hother => ?_, hrest, fun {other} hserving => ?_,
    fun other hother => ?_, fun hgone => ?_⟩
  · have hne : other ≠ request := fun heq => hfirst (heq ▸ hother)
    rw [touches.far other hne, entered]
    exact h.queue other (queue ▸ List.mem_cons_of_mem _ hother)
  · rw [streamer] at hserving
    cases hserving
    rw [entered]
    exact ⟨far, (h.queue request hmem).2⟩
  · rw [entered] at hother
    by_cases heq : other = request
    · exact .inr (.inl (heq ▸ streamer))
    · rw [touches.far other heq]
      rcases h.entered other hother with hqueue | hserving | hgone
      · rw [queue] at hqueue
        exact .inl ((List.mem_cons.mp hqueue).resolve_left heq)
      · rw [receiving] at hserving
        cases hserving
      · exact .inr (.inr hgone)
  · rw [streamer] at hgone
    cases hgone

theorem ThreadLinked.not_queued (h : system.ThreadLinked)
    (hserving : system.streamer = .serving request) :
    request ∉ system.requests.queue := by
  intro hmem
  have hwaiting := (h.queue request hmem).1
  rw [(h.serving hserving).1] at hwaiting
  cases hwaiting

theorem ThreadLinked.finishes (h : system.ThreadLinked)
    (serving : system.streamer = .serving request)
    (far : system'.far request = some .gone)
    (touches : Touches request system system')
    (queue : system'.requests.queue = system.requests.queue)
    (streamer : system'.streamer = .receiving)
    (entered : system'.entered = system.entered) : system'.ThreadLinked := by
  refine ⟨fun other hother => ?_, queue ▸ h.nodup, fun {other} hserving => ?_,
    fun other hother => ?_, fun hgone => ?_⟩
  · rw [queue] at hother
    have hne : other ≠ request :=
      fun heq => h.not_queued serving (heq ▸ hother)
    rw [touches.far other hne, entered]
    exact h.queue other hother
  · rw [streamer] at hserving
    cases hserving
  · rw [entered] at hother
    by_cases heq : other = request
    · exact .inr (.inr (heq ▸ far))
    · rw [touches.far other heq, queue]
      rcases h.entered other hother with hqueue | hserving | hgone
      · exact .inl hqueue
      · rw [serving] at hserving
        cases hserving
        exact absurd rfl heq
      · exact .inr (.inr hgone)
  · rw [streamer] at hgone
    cases hgone

theorem ThreadLinked.leaves (h : system.ThreadLinked)
    (ended : ∀ other, other ∈ system.requests.queue ∨
      system.streamer = .serving other → system'.far other = some .gone)
    (far : ∀ other, other ∉ system.requests.queue →
      system.streamer ≠ .serving other →
      system'.far other = system.far other)
    (queue : system'.requests.queue = [])
    (streamer : system'.streamer = .gone)
    (entered : system'.entered = system.entered) : system'.ThreadLinked := by
  refine ⟨fun other hother => ?_, queue ▸ List.nodup_nil,
    fun {other} hserving => ?_, fun other hother => .inr (.inr ?_),
    fun _ => queue⟩
  · rw [queue] at hother
    cases hother
  · rw [streamer] at hserving
    cases hserving
  · rw [entered] at hother
    by_cases hended : other ∈ system.requests.queue ∨
        system.streamer = .serving other
    · exact ended other hended
    · obtain ⟨hqueue, hserving⟩ := not_or.mp hended
      rw [far other hqueue hserving]
      rcases h.entered other hother with hqueue' | hserving' | hgone
      · exact absurd hqueue' hqueue
      · exact absurd hserving' hserving
      · exact hgone

/-! ## The shim's side of a step -/

theorem ShimLinked.of_thread (h : system.ShimLinked)
    (shim : system'.shim = system.shim) (near : system'.near = system.near)
    (far : ∀ other, other ∉ system.entered →
      system'.far other = system.far other)
    (queue : system'.requests.queue <:+ system.requests.queue)
    (entered : system'.entered = system.entered) : system'.ShimLinked where
  sending {other} hsending := by
    obtain ⟨hnear, hfar, hnew⟩ := h.sending (shim ▸ hsending)
    rw [near, far other hnew, entered]
    exact ⟨hnear, hfar, hnew⟩
  flushing {other} hflushing := by
    obtain ⟨hnear, hentered, hlast⟩ := h.flushing (shim ▸ hflushing)
    rw [near, entered]
    refine ⟨hnear, hentered, fun last hsome => hlast last ?_⟩
    obtain ⟨before, hbefore⟩ := queue
    rw [← hbefore, List.getLast?_append, hsome, Option.some_or]
  calling {other} hcalling := by
    rw [near, entered]
    exact h.calling (shim ▸ hcalling)
  left {other state} hstate := by
    rw [near] at hstate
    rw [shim]
    exact h.left hstate

theorem ShimLinked.idle (h : system.ShimLinked)
    (was : system.shim.request = some request) (shim : system'.shim = .idle)
    (near : system'.near request = some .left)
    (touches : Touches request system system') : system'.ShimLinked := by
  refine ⟨fun h => ?_, fun h => ?_, fun h => ?_,
    fun {other state} hstate => .inr ?_⟩
  · rw [shim] at h
    cases h
  · rw [shim] at h
    cases h
  · rw [shim] at h
    cases h
  · by_cases heq : other = request
    · rw [heq, near] at hstate
      cases hstate
      rfl
    · rw [touches.near other heq] at hstate
      refine (h.left hstate).resolve_left fun hother => heq ?_
      rw [was] at hother
      cases hother
      rfl

theorem ShimLinked.goesOn (h : system.ShimLinked)
    (was : system.shim.request = some request)
    (hentered : request ∈ system.entered)
    (shim : system'.shim = .calling request)
    (near : system'.near request = some .waiting)
    (touches : Touches request system system')
    (entered : system'.entered = system.entered) : system'.ShimLinked := by
  refine ⟨fun h => ?_, fun h => ?_, fun hcalling => ?_,
    fun {other state} hstate => ?_⟩
  · rw [shim] at h
    cases h
  · rw [shim] at h
    cases h
  · rw [shim] at hcalling
    cases hcalling
    exact ⟨near, entered ▸ hentered⟩
  · by_cases heq : other = request
    · exact .inl (by rw [shim, heq]; rfl)
    · rw [touches.near other heq] at hstate
      refine .inr ((h.left hstate).resolve_left fun hother => heq ?_)
      rw [was] at hother
      cases hother
      rfl

theorem ShimLinked.called (h : system.ShimLinked)
    (idle : system.shim = .idle) (shim : system'.shim = .sending request)
    (hnew : request ∉ system.entered)
    (near : system'.near request = some .requesting)
    (far : system'.far request = some .waiting)
    (touches : Touches request system system')
    (entered : system'.entered = system.entered) : system'.ShimLinked := by
  refine ⟨fun hsending => ?_, fun h => ?_, fun h => ?_,
    fun {other state} hstate => ?_⟩
  · rw [shim] at hsending
    cases hsending
    exact ⟨near, far, entered ▸ hnew⟩
  · rw [shim] at h
    cases h
  · rw [shim] at h
    cases h
  · by_cases heq : other = request
    · exact .inl (by rw [shim, heq]; rfl)
    · rw [touches.near other heq] at hstate
      refine .inr ((h.left hstate).resolve_left fun hother => ?_)
      rw [idle] at hother
      cases hother

theorem ShimLinked.sent (h : system.ShimLinked)
    (sending : system.shim = .sending request)
    (shim : system'.shim = .flushing request)
    (near : system'.near = system.near)
    (queue : system'.requests.queue = system.requests.queue ++ [request])
    (entered : system'.entered = system.entered ++ [request]) :
    system'.ShimLinked := by
  refine ⟨fun h => ?_, fun hflushing => ?_, fun h => ?_,
    fun {other state} hstate => ?_⟩
  · rw [shim] at h
    cases h
  · rw [shim] at hflushing
    cases hflushing
    refine ⟨near ▸ (h.sending sending).1, ?_, fun last hlast => ?_⟩
    · rw [entered]
      exact List.mem_append_right _ (List.mem_singleton_self _)
    · rw [queue, List.getLast?_concat] at hlast
      cases hlast
      rfl
  · rw [shim] at h
    cases h
  · rw [near] at hstate
    refine (h.left hstate).imp_left fun hother => ?_
    rw [sending] at hother
    rw [shim]
    exact hother

theorem ShimLinked.closed (h : system.ShimLinked)
    (idle : system.shim = .idle) (shim : system'.shim = .dropped)
    (near : system'.near = system.near) : system'.ShimLinked := by
  refine ⟨fun h => ?_, fun h => ?_, fun h => ?_,
    fun {other state} hstate => ?_⟩
  · rw [shim] at h
    cases h
  · rw [shim] at h
    cases h
  · rw [shim] at h
    cases h
  · rw [near] at hstate
    refine .inr ((h.left hstate).resolve_left fun hother => ?_)
    rw [idle] at hother
    cases hother

end

theorem Linked.shift (h : system.Linked) (shifts : Shifts system system') :
    system'.Linked := by
  have hshim := h.shim
  have hthread := h.thread
  cases shifts with
  | called request idle shim fresh near far touches same =>
      have hnew : request ∉ system.entered := fun hmem =>
        hthread.known hmem fresh
      exact ⟨hshim.called idle shim hnew near far touches same.entered,
        hthread.congr same fun other hmem =>
          touches.far other fun heq => hnew (heq ▸ hmem)⟩
  | sent request sending shim there near far queue streamer entered =>
      obtain ⟨-, hwaiting, hnew⟩ := hshim.sending sending
      exact ⟨hshim.sent sending shim near queue entered,
        hthread.sent there hwaiting hnew far queue streamer entered⟩
  | unsent request sending shim near touches same =>
      obtain ⟨-, -, hnew⟩ := hshim.sending sending
      exact ⟨hshim.idle (by rw [sending]; rfl) shim near touches,
        hthread.congr same fun other hmem =>
          touches.far other fun heq => hnew (heq ▸ hmem)⟩
  | goesOn request inCall shim near touches far same =>
      have hcall : system.shim.request = some request ∧
          request ∈ system.entered := by
        rcases inCall with hflushing | hcalling
        · exact ⟨by rw [hflushing]; rfl, (hshim.flushing hflushing).2.1⟩
        · exact ⟨by rw [hcalling]; rfl, (hshim.calling hcalling).2⟩
      exact ⟨hshim.goesOn hcall.1 hcall.2 shim near touches same.entered,
        hthread.congr same fun other _ => by rw [far]⟩
  | left request inCall shim near touches far same =>
      have hcall : system.shim.request = some request := by
        rcases inCall with hflushing | hcalling
        · rw [hflushing]
          rfl
        · rw [hcalling]
          rfl
      exact ⟨hshim.idle hcall shim near touches,
        hthread.congr same fun other _ => by rw [far]⟩
  | closed idle shim near far same =>
      exact ⟨hshim.closed idle shim near,
        hthread.congr same fun other _ => by rw [far]⟩
  | starts request receiving shim near far touches queue streamer entered =>
      have hmem : request ∈ system.entered :=
        (hthread.queue request (queue ▸ List.mem_cons_self)).2
      exact ⟨hshim.of_thread shim near
          (fun other hnew => touches.far other fun heq => hnew (heq ▸ hmem))
          (queue ▸ List.suffix_cons _ _) entered,
        hthread.starts receiving far touches queue streamer entered⟩
  | works request serving shim near far touches same =>
      obtain ⟨hactive, hmem⟩ := hthread.serving serving
      have hsame : system'.far = system.far :=
        touches.far_eq (far.trans hactive.symm)
      exact ⟨hshim.of_thread shim near (fun other _ => by rw [hsame])
          (same.queue ▸ List.suffix_rfl) same.entered,
        hthread.congr same fun other _ => by rw [hsame]⟩
  | finishes request serving shim near far touches queue streamer entered =>
      have hmem := (hthread.serving serving).2
      exact ⟨hshim.of_thread shim near
          (fun other hnew => touches.far other fun heq => hnew (heq ▸ hmem))
          (queue ▸ List.suffix_rfl) entered,
        hthread.finishes serving far touches queue streamer entered⟩
  | leaves shim near ended far queue streamer entered =>
      refine ⟨hshim.of_thread shim near (fun other hnew => ?_)
          (queue ▸ List.nil_suffix) entered,
        hthread.leaves ended far queue streamer entered⟩
      exact far other (fun hqueue => hnew (hthread.queue other hqueue).2)
        fun hserving => hnew (hthread.serving hserving).2

end System

end ConjureRuntime.Blocking
