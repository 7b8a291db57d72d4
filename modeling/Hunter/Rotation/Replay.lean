import Hunter.Effect.Oracle
import Hunter.Replay
import Hunter.Rotation.Calls
set_option autoImplicit false

namespace Hunter
open Effect

namespace Outside

/-- A call's answer and the state after it, at the time the clock shows. -/
def answerRota (o : Outside) (x : Rota) : {β : Type} → RotaCall β → β × Rota
  | _, .base c =>
    let answered := { o with now := x.clock }.answerCall x.world c
    (answered.1, x.after c answered.1 answered.2)
  | _, .listRepos => (.ok x.listRepos, x)
  | _, .setLastKindAt repoId kind => (.ok (), x.setLastKindAt repoId kind)
  | _, .logEvent event => (.ok (), x.logEvent event)
  | _, .tell _ => ((), x)

def rota (o : Outside) : Oracle RotaCall Rota where
  answer c x := o.answerRota x c

theorem onTime_answerCall (o : Outside) {β : Type} (c : Call β) (w : World) :
    c.onTime o.now (o.answerCall w c).1 := by
  cases c with
  | ask q => cases q <;> first | rfl | trivial
  | store c => trivial
  | tree c => trivial

theorem obeys_rota (o : Outside) : o.rota.Obeys RotaStep := by
  intro β c x
  cases c with
  | base c => exact .base (callStep _ c x.world) (onTime_answerCall { o with now := x.clock } c _)
  | listRepos => exact .listRepos x
  | setLastKindAt repoId kind => exact .setLastKindAt repoId kind x
  | logEvent event => exact .logEvent event x
  | tell turned => exact .tell turned x

end Outside

def Rota.start (clock : Int) (w : World) : Rota where
  world := w
  clock := clock
  events := []
  enabled := fun _ => true
  lastAt := fun _ _ => none

end Hunter
