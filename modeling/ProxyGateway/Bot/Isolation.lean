/-
# ProxyGateway.Bot.Isolation — what the chats of the bot share

The tables of the bot are indexed by chat: the conversation a chat is in, the domain that failed last in
it, its busy messages.  The thread pool is one for all, and carries the tasks out in any order.

`chatSide` is one chat's side of this: its entries of the tables and its tasks.  An event of another chat
changes none of them, and an event of the chat itself reads nothing else but the files, so that by
`Side.purged` every run of the bot is, for each chat, a run in which no other chat takes part
(`chats_isolated`).  What is left to share is the files: the world that an event finds is one of the
event's own parts here.

The other half is about those who are no administrators: their messages and presses change nothing at
all (`strangers_change_nothing`).
-/
import ProxyGateway.Bot.Handlers
import ProxyGateway.Logic.Purge

namespace ProxyGateway.Bot

open ProxyGateway.Lang ProxyGateway.Logic

section Chats

variable (H : BotHost) (admins : List Int)

/-! ## One chat's side -/

/-- The command lines that an event starts, with the chat that it is for. -/
def commandsOf (st : BotState) : Event → List (Int × List Text)
  | .message m w =>
    ((H.handleMessage w admins st m).now.bind (H.command w)).toList.map fun args => (m.chat, args)
  | .callback c w =>
    ((H.handleCallback w admins st c).now.bind (H.command w)).toList.map fun args => (c.chat, args)
  | .work i w =>
    match st.tasks[i]? with
    | some t => (H.command w t.op).toList.map fun args => (t.chat, args)
    | none => []

/-- The command lines of a run. -/
def commands : BotState → List Event → List (Int × List Text) :=
  outputs (step H admins) (commandsOf H admins)

/-- What an event is for a chat: a message or a press in it, or a task of its own, which is counted
among its tasks. -/
def ownEvent (chat : Int) (st : BotState) : Event → Option Event
  | .message m w => if m.chat = chat then some (.message m w) else none
  | .callback c w => if c.chat = chat then some (.callback c w) else none
  | .work i w =>
    match st.tasks[i]? with
    | some t =>
      if t.chat = chat then some (.work (keptIndex (·.chat = chat) st.tasks i) w) else none
    | none => none

/-- **`Seen`** — `t` is what the chat sees of `s`. -/
structure Seen (chat : Int) (s t : BotState) : Prop where
  pending : ∀ d, t.pending d = if d = chat then s.pending d else none
  lastFailed : ∀ d, t.lastFailed d = if d = chat then s.lastFailed d else none
  busy : t.busy = s.busy.filter (·.1 = chat)
  tasks : t.tasks = s.tasks.filter (·.chat = chat)
  /-- a task keeps a message of its own chat busy -/
  ownKeys : ∀ task ∈ s.tasks, ∀ key ∈ task.busy, key.1 = task.chat

variable {H admins} {chat : Int} {s t s' : BotState}

theorem seen_start : Seen chat .start .start where
  pending d := by
    split
    · rfl
    · rfl
  lastFailed d := by
    split
    · rfl
    · rfl
  busy := rfl
  tasks := rfl
  ownKeys task htask := by cases htask

theorem Seen.mem_busy (h : Seen chat s t) (message : Option Int) :
    (chat, message) ∈ t.busy ↔ (chat, message) ∈ s.busy := by
  rw [h.busy, List.mem_filter]
  simp

/-! ## Messages and presses -/

/-- A handler reads the conversation of its own chat. -/
theorem Seen.handleMessage (h : Seen chat s t) {m : Message} (hchat : m.chat = chat) (w : World) :
    H.handleMessage w admins t m = H.handleMessage w admins s m := by
  have hpending : t.pending m.chat = s.pending m.chat := by rw [h.pending, if_pos hchat]
  unfold BotHost.handleMessage
  rw [hpending]

theorem Seen.handleCallback (h : Seen chat s t) {c : Callback} (hchat : c.chat = chat) (w : World) :
    H.handleCallback w admins t c = H.handleCallback w admins s c := by
  have hpending : t.pending c.chat = s.pending c.chat := by rw [h.pending, if_pos hchat]
  have hfailed : t.lastFailed c.chat = s.lastFailed c.chat := by rw [h.lastFailed, if_pos hchat]
  have hbusy : (c.chat, c.message) ∈ t.busy ↔ (c.chat, c.message) ∈ s.busy := by
    rw [hchat]
    exact h.mem_busy c.message
  have haccepted : accepted admins t c = accepted admins s c := by
    simp only [accepted, hbusy]
  have hpress : H.press w t c = H.press w s c := by
    unfold BotHost.press
    rw [hpending, hfailed]
  unfold BotHost.handleCallback
  rw [haccepted, hpress]

theorem apply_pending_of_ne {d from' : Int} (hne : d ≠ from') (u : PendingUpdate)
    (pending : Int → Option Pending) : u.apply from' pending d = pending d := by
  cases u with
  | keep => rfl
  | pop => exact Function.update_of_ne hne ..
  | put p => exact Function.update_of_ne hne ..

/-- The tasks that a handler leaves to the pool. -/
def laterTasks (chat : Int) (busy : Option BusyKey) (e : Effect) : List Task :=
  (e.later.map fun op => Task.mk op chat busy).toList

theorem mem_laterTasks {busy : Option BusyKey} {e : Effect} {task : Task}
    (h : task ∈ laterTasks chat busy e) : task.chat = chat ∧ task.busy = busy := by
  obtain ⟨op, -, rfl⟩ := Option.map_eq_some_iff.mp (Option.mem_toList.mp h)
  exact ⟨rfl, rfl⟩

theorem ownKeys_apply {busy : Option BusyKey} (hbusy : ∀ key ∈ busy, key.1 = chat) (w : World)
    (e : Effect) (h : ∀ task ∈ s.tasks, ∀ key ∈ task.busy, key.1 = task.chat) :
    ∀ task ∈ (s.apply H chat busy w e).tasks, ∀ key ∈ task.busy, key.1 = task.chat := by
  intro task htask key hkey
  rcases List.mem_append.mp htask with hold | hnew
  · exact h task hold key hkey
  · obtain ⟨hchat, hown⟩ := mem_laterTasks hnew
    rw [hchat]
    exact hbusy key (hown ▸ hkey)

/-- The effect of a handler, for its own chat. -/
theorem Seen.apply (h : Seen chat s t) {busy : Option BusyKey} (hbusy : ∀ key ∈ busy, key.1 = chat)
    (w : World) (e : Effect) : Seen chat (s.apply H chat busy w e) (t.apply H chat busy w e) where
  pending d := by
    show e.pending.apply chat t.pending d = if d = chat then e.pending.apply chat s.pending d else none
    split
    · rename_i hd
      subst hd
      have hown : t.pending d = s.pending d := by rw [h.pending, if_pos rfl]
      cases e.pending with
      | keep => exact hown
      | pop => rw [PendingUpdate.apply, PendingUpdate.apply, Function.update_self, Function.update_self]
      | put p =>
        rw [PendingUpdate.apply, PendingUpdate.apply, Function.update_self, Function.update_self]
    · rename_i hd
      rw [apply_pending_of_ne hd, h.pending, if_neg hd]
  lastFailed := h.lastFailed
  busy := by
    show (if e.later.isSome then busy.toList ++ t.busy else t.busy) =
      (if e.later.isSome then busy.toList ++ s.busy else s.busy).filter (·.1 = chat)
    have hkeys : busy.toList.filter (·.1 = chat) = busy.toList :=
      List.filter_eq_self.mpr fun key hkey => decide_eq_true (hbusy key (Option.mem_toList.mp hkey))
    split
    · rw [List.filter_append, hkeys, h.busy]
    · exact h.busy
  tasks := by
    show t.tasks ++ laterTasks chat busy e = (s.tasks ++ laterTasks chat busy e).filter (·.chat = chat)
    have hmine : (laterTasks chat busy e).filter (·.chat = chat) = laterTasks chat busy e :=
      List.filter_eq_self.mpr fun task htask => decide_eq_true (mem_laterTasks htask).1
    rw [List.filter_append, hmine, h.tasks]
  ownKeys := ownKeys_apply hbusy w e h.ownKeys

/-- The effect of a handler, for every other chat. -/
theorem Seen.apply_other (h : Seen chat s t) {sender : Int} (hne : sender ≠ chat)
    {busy : Option BusyKey} (hbusy : ∀ key ∈ busy, key.1 = sender) (w : World) (e : Effect) :
    Seen chat (s.apply H sender busy w e) t where
  pending d := by
    rw [h.pending]
    show _ = if d = chat then e.pending.apply sender s.pending d else none
    split
    · rename_i hd
      rw [apply_pending_of_ne (hd ▸ hne.symm)]
    · rfl
  lastFailed := h.lastFailed
  busy := by
    show t.busy = (if e.later.isSome then busy.toList ++ s.busy else s.busy).filter (·.1 = chat)
    have hkeys : busy.toList.filter (·.1 = chat) = [] :=
      List.filter_eq_nil_iff.mpr fun key hkey => by
        simpa [hbusy key (Option.mem_toList.mp hkey)] using hne
    split
    · rw [List.filter_append, hkeys, List.nil_append, h.busy]
    · exact h.busy
  tasks := by
    show t.tasks = (s.tasks ++ laterTasks sender busy e).filter (·.chat = chat)
    have hnone : (laterTasks sender busy e).filter (·.chat = chat) = [] :=
      List.filter_eq_nil_iff.mpr fun task htask => by
        simpa [(mem_laterTasks htask).1] using hne
    rw [List.filter_append, hnone, List.append_nil, h.tasks]
  ownKeys := ownKeys_apply hbusy w e h.ownKeys

/-! ## The end of a task -/

/-- A task leaves the table of failed domains as it is, or sets the entry of its chat. -/
theorem failedAfter_cases (H : BotHost) (w : World) (task : Task) :
    (∀ failed, H.failedAfter w task failed = failed) ∨
      ∃ domain, ∀ failed, H.failedAfter w task failed = Function.update failed task.chat domain := by
  cases hop : task.op with
  | setDotDomain domain =>
    let arg := dotDomainArg H.toHost domain
    refine .inr ⟨if isDotDomain arg ∧ w.ok = false then some arg else none, fun failed => ?_⟩
    simp only [BotHost.failedAfter, hop, arg]
  | forceSetDotDomain domain =>
    by_cases hforced : isDotDomain (dotDomainArg H.toHost domain) = true ∧
        (w.ok = true ∨ w.saysForced = true)
    · refine .inr ⟨none, fun failed => ?_⟩
      simp only [BotHost.failedAfter, hop, if_pos hforced]
    · refine .inl fun failed => ?_
      simp only [BotHost.failedAfter, hop, if_neg hforced]
  | _ =>
    refine .inl fun failed => ?_
    simp only [BotHost.failedAfter, hop]

theorem failedAfter_of_ne {task : Task} {d : Int} (hne : d ≠ task.chat) (w : World)
    (failed : Int → Option Text) : H.failedAfter w task failed d = failed d := by
  rcases failedAfter_cases H w task with hkeep | ⟨domain, hset⟩
  · rw [hkeep]
  · rw [hset, Function.update_of_ne hne]

theorem failedAfter_congr {task : Task} (w : World) {failed failed' : Int → Option Text}
    (h : failed task.chat = failed' task.chat) :
    H.failedAfter w task failed task.chat = H.failedAfter w task failed' task.chat := by
  rcases failedAfter_cases H w task with hkeep | ⟨domain, hset⟩
  · rw [hkeep, hkeep, h]
  · rw [hset, hset, Function.update_self, Function.update_self]

theorem ownKeys_finish {i : Nat} {task : Task} (w : World)
    (h : ∀ task ∈ s.tasks, ∀ key ∈ task.busy, key.1 = task.chat) :
    ∀ task' ∈ (s.finish H i task w).tasks, ∀ key ∈ task'.busy, key.1 = task'.chat :=
  fun task' htask' => h task' (List.mem_of_mem_eraseIdx htask')

/-- A task of the chat itself. -/
theorem Seen.finish (h : Seen chat s t) {i : Nat} {task : Task} (htask : s.tasks[i]? = some task)
    (hchat : task.chat = chat) (w : World) :
    Seen chat (s.finish H i task w) (t.finish H (keptIndex (·.chat = chat) s.tasks i) task w) where
  pending := h.pending
  lastFailed d := by
    show H.failedAfter w task t.lastFailed d = if d = chat then H.failedAfter w task s.lastFailed d else none
    split
    · rename_i hd
      subst hd
      have hown : t.lastFailed task.chat = s.lastFailed task.chat := by
        rw [h.lastFailed, if_pos hchat]
      rw [← hchat]
      exact failedAfter_congr w hown
    · rename_i hd
      rw [failedAfter_of_ne (hchat ▸ hd), h.lastFailed, if_neg hd]
  busy := by
    simp only [BotState.finish, h.busy]
    cases task.busy with
    | none => rfl
    | some key => exact List.filter_comm _ _ _
  tasks := by
    show t.tasks.eraseIdx _ = (s.tasks.eraseIdx i).filter (·.chat = chat)
    rw [filter_eraseIdx_of_pos htask (decide_eq_true hchat), h.tasks]
  ownKeys := ownKeys_finish w h.ownKeys

/-- A task of another chat. -/
theorem Seen.finish_other (h : Seen chat s t) {i : Nat} {task : Task}
    (htask : s.tasks[i]? = some task) (hne : task.chat ≠ chat) (w : World) :
    Seen chat (s.finish H i task w) t where
  pending := h.pending
  lastFailed d := by
    rw [h.lastFailed]
    show _ = if d = chat then H.failedAfter w task s.lastFailed d else none
    split
    · rename_i hd
      rw [failedAfter_of_ne (hd ▸ hne.symm)]
    · rfl
  busy := by
    simp only [BotState.finish, h.busy]
    cases hkey : task.busy with
    | none => rfl
    | some key =>
      have hown : key.1 ≠ chat := by
        rw [h.ownKeys task (List.mem_of_getElem? htask) key hkey]
        exact hne
      refine (List.filter_comm _ _ _).trans (List.filter_eq_self.mpr fun k hk => ?_) |>.symm
      have hk' : k.1 = chat := of_decide_eq_true (List.mem_filter.mp hk).2
      refine decide_eq_true ?_
      rintro rfl
      exact hown hk'
  tasks := by
    show t.tasks = (s.tasks.eraseIdx i).filter (·.chat = chat)
    rw [filter_eraseIdx_of_neg htask (decide_eq_false hne), h.tasks]
  ownKeys := ownKeys_finish w h.ownKeys

/-! ## The two rules -/

theorem filter_commands_of_ne {sender : Int} (hne : sender ≠ chat) (args : Option (List Text)) :
    ((args.toList.map fun args => (sender, args)).filter fun command => command.1 = chat) = [] := by
  refine List.filter_eq_nil_iff.mpr fun command hcommand => ?_
  obtain ⟨args, -, rfl⟩ := List.mem_map.mp hcommand
  simpa using hne

theorem filter_commands_self (args : Option (List Text)) :
    ((args.toList.map fun args => (chat, args)).filter fun command => command.1 = chat) =
      args.toList.map fun args => (chat, args) := by
  refine List.filter_eq_self.mpr fun command hcommand => ?_
  obtain ⟨args, -, rfl⟩ := List.mem_map.mp hcommand
  exact decide_eq_true rfl

/-- The messages that a press keeps busy are in its chat. -/
theorem busyKey_chat (c : Callback) : ∀ key ∈ some (c.chat, c.message), key.1 = c.chat := by
  intro key hkey
  obtain rfl := Option.some.inj hkey
  rfl

theorem skip_others {e : Event} (h : Seen chat s t) (hown : ownEvent chat s e = none)
    (hstep : step H admins s e = some s') :
    Seen chat s' t ∧ (commandsOf H admins s e).filter (fun command => command.1 = chat) = [] := by
  cases e with
  | message m w =>
    obtain rfl := Option.some.inj hstep
    have hne : m.chat ≠ chat := fun heq => by simp [ownEvent, heq] at hown
    exact ⟨h.apply_other hne (fun key hkey => by cases hkey) w _, filter_commands_of_ne hne _⟩
  | callback c w =>
    obtain rfl := Option.some.inj hstep
    have hne : c.chat ≠ chat := fun heq => by simp [ownEvent, heq] at hown
    exact ⟨h.apply_other hne (busyKey_chat c) w _, filter_commands_of_ne hne _⟩
  | work i w =>
    obtain ⟨task, htask, rfl⟩ := Option.map_eq_some_iff.mp hstep
    have hne : task.chat ≠ chat := fun heq => by simp [ownEvent, htask, heq] at hown
    refine ⟨h.finish_other htask hne w, ?_⟩
    simp only [commandsOf, htask]
    exact filter_commands_of_ne hne _

theorem take_own {e e' : Event} (h : Seen chat s t) (hown : ownEvent chat s e = some e')
    (hstep : step H admins s e = some s') :
    ∃ t', step H admins t e' = some t' ∧ Seen chat s' t' ∧
      commandsOf H admins t e' =
        (commandsOf H admins s e).filter fun command => command.1 = chat := by
  cases e with
  | message m w =>
    obtain rfl := Option.some.inj hstep
    obtain ⟨rfl, rfl⟩ : m.chat = chat ∧ Event.message m w = e' := by
      by_cases hchat : m.chat = chat
      · simpa [ownEvent, hchat] using hown
      · simp [ownEvent, hchat] at hown
    refine ⟨_, rfl, ?_, ?_⟩
    · rw [h.handleMessage rfl]
      exact h.apply (fun key hkey => by cases hkey) w _
    · simp only [commandsOf, h.handleMessage rfl]
      exact (filter_commands_self _).symm
  | callback c w =>
    obtain rfl := Option.some.inj hstep
    obtain ⟨rfl, rfl⟩ : c.chat = chat ∧ Event.callback c w = e' := by
      by_cases hchat : c.chat = chat
      · simpa [ownEvent, hchat] using hown
      · simp [ownEvent, hchat] at hown
    refine ⟨_, rfl, ?_, ?_⟩
    · rw [h.handleCallback rfl]
      exact h.apply (busyKey_chat c) w _
    · simp only [commandsOf, h.handleCallback rfl]
      exact (filter_commands_self _).symm
  | work i w =>
    obtain ⟨task, htask, rfl⟩ := Option.map_eq_some_iff.mp hstep
    obtain ⟨rfl, rfl⟩ : task.chat = chat ∧
        Event.work (keptIndex (·.chat = chat) s.tasks i) w = e' := by
      by_cases hchat : task.chat = chat
      · simpa [ownEvent, htask, hchat] using hown
      · simp [ownEvent, htask, hchat] at hown
    have hkept : t.tasks[keptIndex (·.chat = task.chat) s.tasks i]? = some task := by
      rw [h.tasks]
      exact filter_getElem?_keptIndex htask (decide_eq_true rfl)
    refine ⟨_, Option.map_eq_some_iff.mpr ⟨task, hkept, rfl⟩, h.finish htask rfl w, ?_⟩
    simp only [commandsOf, htask, hkept]
    exact (filter_commands_self _).symm

/-! ## Runs -/

/-- **`chatSide`** -/
def chatSide (H : BotHost) (admins : List Int) (chat : Int) :
    Side (step H admins) (commandsOf H admins) where
  Sees := Seen chat
  own := ownEvent chat
  mine := fun command => command.1 = chat
  skip := skip_others
  take := take_own

/-- What the chat does in a run: its messages, its presses, and its tasks in the pool. -/
def ownEvents (H : BotHost) (admins : List Int) (chat : Int) : BotState → List Event → List Event :=
  (chatSide H admins chat).purge

/-- The log of a run is its command lines, whoever they are for. -/
theorem step_log {e : Event} (hstep : step H admins s e = some s') :
    s'.log = s.log ++ (commandsOf H admins s e).map (·.2) := by
  have hargs : ∀ (sender : Int) (args : Option (List Text)),
      (args.toList.map fun args => (sender, args)).map (·.2) = args.toList := by
    intro sender args
    cases args with
    | none => rfl
    | some args => rfl
  cases e with
  | message m w =>
    obtain rfl := Option.some.inj hstep
    exact congrArg (s.log ++ ·) (hargs ..).symm
  | callback c w =>
    obtain rfl := Option.some.inj hstep
    exact congrArg (s.log ++ ·) (hargs ..).symm
  | work i w =>
    obtain ⟨task, htask, rfl⟩ := Option.map_eq_some_iff.mp hstep
    simp only [commandsOf, htask]
    exact congrArg (s.log ++ ·) (hargs ..).symm

theorem run_log {es : List Event} (hrun : run (step H admins) s es = some s') :
    s'.log = s.log ++ (commands H admins s es).map (·.2) := by
  induction es generalizing s with
  | nil =>
    obtain rfl : s = s' := by simpa [run] using hrun
    exact (List.append_nil _).symm
  | cons e es ih =>
    obtain ⟨mid, hstep, hrest⟩ := Option.bind_eq_some_iff.mp hrun
    rw [ih hrest, step_log hstep, commands, outputs_cons hstep, List.map_append, List.append_assoc]

/-! ## Strangers -/

/-- The event is a task, or it comes from an administrator in a private chat. -/
def heeded (admins : List Int) : Event → Bool
  | .message m _ => authorized admins m.toSender
  | .callback c _ => authorized admins c.toSender
  | .work .. => true

/-- No other message or press changes anything. -/
theorem step_unheeded {e : Event} (h : heeded admins e = false) : step H admins s e = some s := by
  have hnothing : ∀ (chat : Int) (busy : Option BusyKey) (w : World),
      s.apply H chat busy w {} = s := by
    intro chat busy w
    show ({ s with tasks := s.tasks ++ [], log := s.log ++ [] } : BotState) = s
    rw [List.append_nil, List.append_nil]
  cases e with
  | message m w =>
    have hunauthorized : authorized admins m.toSender = false := h
    have heffect : H.handleMessage w admins s m = {} := by
      simp only [BotHost.handleMessage, if_pos hunauthorized, ite_self]
    exact congrArg some ((congrArg _ heffect).trans (hnothing ..))
  | callback c w =>
    have hunauthorized : authorized admins c.toSender = false := h
    have heffect : H.handleCallback w admins s c = {} := by
      rw [BotHost.handleCallback, accepted, hunauthorized]
      rfl
    exact congrArg some ((congrArg _ heffect).trans (hnothing ..))
  | work i w => cases h

theorem run_heeded (es : List Event) :
    run (step H admins) s (es.filter (heeded admins)) = run (step H admins) s es := by
  induction es generalizing s with
  | nil => rfl
  | cons e es ih =>
    cases hheeded : heeded admins e with
    | true =>
      rw [List.filter_cons_of_pos hheeded, run, run]
      congr 1
      funext mid
      exact ih
    | false =>
      rw [List.filter_cons_of_neg (by simp [hheeded]), ih, run, step_unheeded hheeded]
      rfl

/-- **`chats_isolated`** — take from a run only what one chat does, its tasks in the order in which the
pool took them: this is a run too, it leaves the chat in the same conversation, with the same failed
domain, busy messages and tasks, and starts the same command lines for it.  What strangers send can be
left out of any run. -/
theorem chats_isolated (H : BotHost) (admins : List Int) (chat : Int) {es : List Event} {st : BotState}
    (hrun : run (step H admins) .start es = some st) :
    run (step H admins) .start (es.filter (heeded admins)) = some st ∧
      st.log = (commands H admins .start es).map (·.2) ∧
      ∃ own, run (step H admins) .start (ownEvents H admins chat .start es) = some own ∧
        own.pending chat = st.pending chat ∧ own.lastFailed chat = st.lastFailed chat ∧
        own.busy = st.busy.filter (·.1 = chat) ∧ own.tasks = st.tasks.filter (·.chat = chat) ∧
        own.log = ((commands H admins .start es).filter fun command => command.1 = chat).map (·.2) := by
  obtain ⟨own, hown, hseen, houts⟩ := (chatSide H admins chat).purged seen_start hrun
  have hlog := run_log hrun
  have hlogOwn := run_log hown
  refine ⟨(run_heeded es).trans hrun, hlog, own, hown, ?_, ?_, hseen.busy, hseen.tasks, ?_⟩
  · rw [hseen.pending, if_pos rfl]
  · rw [hseen.lastFailed, if_pos rfl]
  · exact hlogOwn.trans (congrArg (List.map fun command : Int × List Text => command.2) houts)

end Chats

/-- Two administrators at once: one switches the exit while the other adds a rule. -/
def twoChats : List Event :=
  [.callback ⟨⟨some 8, 8, true⟩, some 1, lit "rules:add"⟩ quietWorld,
    .callback ⟨admin, some 1, lit "exit:us"⟩ quietWorld,
    .callback ⟨⟨some 8, 8, true⟩, some 2, lit "exit:local"⟩ quietWorld,
    .message ⟨⟨some 9, 8, true⟩, lit "/cancel"⟩ quietWorld,
    .work 1 quietWorld, .work 0 quietWorld]

theorem chats_isolated_two : ∃ st, run (step plainBot [7, 8]) .start twoChats = some st ∧
    st.log = [[lit "--set-exit", lit "local"], [lit "--set-exit", lit "us"]] ∧
      ∃ own, run (step plainBot [7, 8]) .start
          [.callback ⟨admin, some 1, lit "exit:us"⟩ quietWorld, .work 0 quietWorld] = some own ∧
        own.log = [[lit "--set-exit", lit "us"]] := by
  obtain ⟨-, -, own, hown, -, -, -, -, hlog⟩ := @chats_isolated plainBot [7, 8] 7 twoChats _ rfl
  exact ⟨_, rfl, by decide, own, hown, hlog.trans (by decide)⟩

end ProxyGateway.Bot
