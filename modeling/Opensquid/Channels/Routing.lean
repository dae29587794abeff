import Opensquid.Lib.FirstMatch

/-!
# Chat routing

The routing configuration binds umbrellas to a chat, and to one topic of it or to the
bare group. `resolveOutbound` finds the binding of an umbrella by its id,
`resolveInboundUmbrella` finds the umbrella of a message by its chat and topic. The
schema does not relate two rows, so a message comes back to the umbrella it went out
from exactly where no row in front of it has its binding (`routing_returns_iff`).
-/

namespace Opensquid.Channels

open Opensquid.Lib

/-! ## The configuration -/

def generalUmbrella : String := "general"

structure TelegramTarget where
  chatId : String
  /-- None: the bare group. -/
  topicId : Option Int := none
  addressed : chatId ≠ "" := by decide
  deriving Repr

instance : DecidableEq TelegramTarget := fun a b =>
  decidable_of_iff (a.chatId = b.chatId ∧ a.topicId = b.topicId) (by cases a; cases b; simp)

structure UmbrellaRow where
  id : String
  members : List String
  telegram : Option TelegramTarget := none
  named : id ≠ "" := by decide
  unreserved : id ≠ generalUmbrella := by decide
  rooted : ∀ member ∈ members, member ≠ "" := by decide
  deriving Repr

instance : DecidableEq UmbrellaRow := fun a b =>
  decidable_of_iff (a.id = b.id ∧ a.members = b.members ∧ a.telegram = b.telegram)
    (by cases a; cases b; simp)

structure GeneralTelegram where
  chatId : String
  dmUserIds : Option (List String) := none
  ownsGeneralThread : Option Bool := none
  addressed : chatId ≠ "" := by decide
  senders : ∀ ids ∈ dmUserIds, ∀ id ∈ ids, id ≠ "" := by decide

inductive ResponderMode
  | session
  | headless
  deriving DecidableEq, Repr

inductive ChatPlatform
  | telegram
  | discord
  | slack
  deriving DecidableEq, Repr

/-- What the schema accepts. `general`: the `telegram` field of the row `general`. -/
structure ChannelsConfig where
  umbrellas : List UmbrellaRow
  general : Option GeneralTelegram := none
  responder : Option ResponderMode := none
  platform : Option ChatPlatform := none

structure InboundTelegramKey where
  chatId : String
  topicId : Option Int
  senderId : String
  direct : Bool
  deriving DecidableEq, Repr

def UmbrellaRow.isAt (u : UmbrellaRow) (chatId : String) (topicId : Option Int) : Bool :=
  u.telegram.any fun tg : TelegramTarget => tg.chatId = chatId ∧ tg.topicId = topicId

def GeneralTelegram.allows (general : GeneralTelegram) (senderId : String) : Bool :=
  general.dmUserIds.any (senderId ∈ ·)

def GeneralTelegram.ownsThreadOf (general : GeneralTelegram) (chatId : String) : Bool :=
  general.ownsGeneralThread = some true ∧ general.chatId = chatId

namespace ChannelsConfig

variable (cfg : ChannelsConfig)

/-! ## Resolution -/

def resolveInboundUmbrella (key : InboundTelegramKey) : Option String :=
  if key.direct then
    if cfg.general.any (·.allows key.senderId) then some generalUmbrella else none
  else
    let owner : Option UmbrellaRow := match key.topicId with
      | some topicId => cfg.umbrellas.find? (·.isAt key.chatId (some topicId))
      | none => cfg.umbrellas.find? (·.isAt key.chatId none)
    match owner with
    | some u => some u.id
    | none =>
        if cfg.general.any (GeneralTelegram.ownsThreadOf · key.chatId) ∧ key.topicId = none then
          some generalUmbrella
        else none

def resolveOutbound (target : String) : Option TelegramTarget :=
  if target = generalUmbrella then
    cfg.general.map fun general => ⟨general.chatId, none, general.addressed⟩
  else (cfg.umbrellas.find? (·.id = target)).bind (·.telegram)

/-! ## There and back -/

/-- A message in the chat and topic that the target's replies go to is resolved to it. -/
def Returns (target : String) : Prop :=
  ∀ out ∈ cfg.resolveOutbound target, ∀ key : InboundTelegramKey, key.direct = false →
    key.chatId = out.chatId → key.topicId = out.topicId →
    cfg.resolveInboundUmbrella key = some target

/-- Every umbrella's messages return, those of the general thread too when it is owned,
and a direct message reaches no umbrella of a project. -/
structure RoutesBack : Prop where
  umbrellas : ∀ u ∈ cfg.umbrellas, cfg.Returns u.id
  general : ∀ general ∈ cfg.general, general.ownsGeneralThread = some true →
    cfg.Returns generalUmbrella
  direct : ∀ key : InboundTelegramKey, key.direct = true → ∀ u ∈ cfg.umbrellas,
    cfg.resolveInboundUmbrella key ≠ some u.id

/-- No row in front of a bound umbrella has its chat and topic, and no row at all has the
bare group of the owned general thread. -/
structure Apart : Prop where
  umbrellas : ∀ u ∈ cfg.umbrellas, ∀ out ∈ cfg.resolveOutbound u.id,
    ∀ row ∈ ahead (·.id) u.id cfg.umbrellas, row.telegram ≠ some out
  general : ∀ general ∈ cfg.general, general.ownsGeneralThread = some true →
    ∀ u ∈ cfg.umbrellas, u.telegram ≠ some ⟨general.chatId, none, general.addressed⟩

variable {cfg}

theorem isAt_iff {u : UmbrellaRow} {out : TelegramTarget} :
    u.isAt out.chatId out.topicId = true ↔ u.telegram = some out := by
  obtain ⟨chatId, topicId, _⟩ := out
  cases bound : u.telegram with
  | none => simp [UmbrellaRow.isAt, bound]
  | some tg =>
      obtain ⟨chatId', topicId', _⟩ := tg
      simp [UmbrellaRow.isAt, bound]

/-- A group message belongs to the first row with its binding. -/
theorem resolveInboundUmbrella_eq {key : InboundTelegramKey} {out : TelegramTarget}
    (group : key.direct = false) (chat : key.chatId = out.chatId) (topic : key.topicId = out.topicId) :
    cfg.resolveInboundUmbrella key =
      ((firstMatch (·.telegram) (some out) cfg.umbrellas).map (·.id)).or
        (if cfg.general.any (GeneralTelegram.ownsThreadOf · out.chatId) ∧ out.topicId = none then
          some generalUmbrella
        else none) := by
  have owner : (match out.topicId with
      | some topicId => cfg.umbrellas.find? (·.isAt out.chatId (some topicId))
      | none => cfg.umbrellas.find? (·.isAt out.chatId none)) =
      firstMatch (·.telegram) (some out) cfg.umbrellas := by
    have test : (fun u : UmbrellaRow => u.isAt out.chatId out.topicId) =
        fun u => decide (u.telegram = some out) :=
      funext fun u => Bool.eq_iff_iff.mpr (isAt_iff.trans decide_eq_true_iff.symm)
    rw [firstMatch, ← test]
    cases out.topicId <;> rfl
  rw [resolveInboundUmbrella, if_neg (by rw [group]; exact Bool.false_ne_true), chat, topic]
  dsimp only
  rw [owner]
  cases firstMatch (·.telegram) (some out) cfg.umbrellas <;> rfl

theorem resolveOutbound_umbrella {u : UmbrellaRow} :
    cfg.resolveOutbound u.id = (firstMatch (·.id) u.id cfg.umbrellas).bind (·.telegram) :=
  if_neg u.unreserved

/-- The messages of a bound umbrella return, if and only if no row in front of it has the
binding. -/
theorem returns_umbrella_iff {u : UmbrellaRow} :
    cfg.Returns u.id ↔ ∀ out ∈ cfg.resolveOutbound u.id,
      ∀ row ∈ ahead (·.id) u.id cfg.umbrellas, row.telegram ≠ some out := by
  constructor
  · intro returns out bound
    have back := returns out bound ⟨out.chatId, out.topicId, "", false⟩ rfl rfl rfl
    rw [resolveInboundUmbrella_eq rfl rfl rfl] at back
    rw [resolveOutbound_umbrella] at bound
    obtain ⟨row, found, binding⟩ := Option.bind_eq_some_iff.mp bound
    rw [← binding] at back ⊢
    refine (firstMatch_returns_iff found).mp ?_
    cases named : (firstMatch (·.telegram) row.telegram cfg.umbrellas).map (·.id) with
    | some id =>
        rw [named, Option.some_or] at back
        exact back
    | none =>
        -- the row itself has the binding
        have missed := List.find?_eq_none.mp (Option.map_eq_none_iff.mp named) row
          (List.mem_of_find?_eq_some found)
        exact absurd (decide_eq_true rfl) missed
  · intro apart out bound key group chat topic
    have clear := apart out bound
    rw [resolveOutbound_umbrella] at bound
    obtain ⟨row, found, binding⟩ := Option.bind_eq_some_iff.mp bound
    rw [← binding] at clear
    rw [resolveInboundUmbrella_eq group chat topic, ← binding,
      (firstMatch_returns_iff found).mpr clear, Option.some_or]

/-- The messages of the owned general thread return, if and only if no row is bound to
its bare group. -/
theorem returns_general_iff {general : GeneralTelegram} (bound : cfg.general = some general)
    (owns : general.ownsGeneralThread = some true) :
    cfg.Returns generalUmbrella ↔
      ∀ u ∈ cfg.umbrellas, u.telegram ≠ some ⟨general.chatId, none, general.addressed⟩ := by
  have outbound : cfg.resolveOutbound generalUmbrella =
      some ⟨general.chatId, none, general.addressed⟩ := by
    rw [resolveOutbound, if_pos rfl, bound, Option.map_some]
  have thread : (cfg.general.any (GeneralTelegram.ownsThreadOf · general.chatId) ∧ (none : Option Int) = none) := by
    rw [bound]
    exact ⟨decide_eq_true ⟨owns, rfl⟩, rfl⟩
  constructor
  · intro returns u member binding
    have back := returns _ outbound ⟨general.chatId, none, "", false⟩ rfl rfl rfl
    rw [@resolveInboundUmbrella_eq _ _ ⟨general.chatId, none, general.addressed⟩ rfl rfl rfl] at back
    cases found : firstMatch (·.telegram) (some ⟨general.chatId, none, general.addressed⟩)
        cfg.umbrellas with
    | none =>
        have missed := List.find?_eq_none.mp found u member
        exact missed (decide_eq_true binding)
    | some row =>
        rw [found, Option.map_some, Option.some_or, Option.some.injEq] at back
        exact row.unreserved back
  · intro free out out_eq key group chat topic
    cases outbound.symm.trans out_eq
    have found : firstMatch (·.telegram) (some ⟨general.chatId, none, general.addressed⟩)
        cfg.umbrellas = none :=
      List.find?_eq_none.mpr fun u member binding => free u member (of_decide_eq_true binding)
    rw [resolveInboundUmbrella_eq group chat topic, found, if_pos thread]
    rfl

/-- A direct message reaches the general session or none. -/
theorem resolveInboundUmbrella_direct {key : InboundTelegramKey} (direct : key.direct = true)
    (u : UmbrellaRow) : cfg.resolveInboundUmbrella key ≠ some u.id := by
  intro resolved
  rw [resolveInboundUmbrella, if_pos direct] at resolved
  split at resolved
  · exact u.unreserved (Option.some.inj resolved).symm
  · cases resolved

end ChannelsConfig

/-- Routing comes back to where it went, if and only if the bindings are apart. -/
theorem routing_returns_iff (cfg : ChannelsConfig) : cfg.RoutesBack ↔ cfg.Apart := by
  constructor
  · intro back
    exact ⟨fun u member => ChannelsConfig.returns_umbrella_iff.mp (back.umbrellas u member),
      fun general bound owns =>
        (ChannelsConfig.returns_general_iff bound owns).mp (back.general general bound owns)⟩
  · intro apart
    exact ⟨fun u member => ChannelsConfig.returns_umbrella_iff.mpr (apart.umbrellas u member),
      fun general bound owns =>
        (ChannelsConfig.returns_general_iff bound owns).mpr (apart.general general bound owns),
      fun _ direct u _ => ChannelsConfig.resolveInboundUmbrella_direct direct u⟩

/-- Two umbrellas of one topic. -/
def sharedTopic : ChannelsConfig where
  umbrellas := [{ id := "loop", members := ["/home/loop"], telegram := some ⟨"-100", some 15, by decide⟩ },
    { id := "site", members := ["/home/site"], telegram := some ⟨"-100", some 15, by decide⟩ }]

/-- The reply of the second one goes to the topic, the answer there to the first one. -/
theorem sharedTopic_misroutes :
    sharedTopic.resolveOutbound "site" = some ⟨"-100", some 15, by decide⟩ ∧
      sharedTopic.resolveInboundUmbrella ⟨"-100", some 15, "7", false⟩ = some "loop" ∧
      ¬ sharedTopic.RoutesBack := by
  have out : sharedTopic.resolveOutbound "site" = some ⟨"-100", some 15, by decide⟩ := by decide
  have back : sharedTopic.resolveInboundUmbrella ⟨"-100", some 15, "7", false⟩ = some "loop" := by
    decide
  refine ⟨out, back, fun returns => ?_⟩
  have wrong := returns.umbrellas _ (List.mem_cons_of_mem _ List.mem_cons_self) _ out
    ⟨"-100", some 15, "7", false⟩ rfl rfl rfl
  exact absurd (Option.some.inj (back.symm.trans wrong)) (by decide)

end Opensquid.Channels
