import LibraryApi.Application
import LibraryApi.TurnRules

/-! What a session had seen when it committed, told from the world in which it gets its first
turn: a token that had expired by then, or a role lost by then, entitles to nothing. -/
namespace LibraryApi.FirstTurns
open Models CacheService Requests Runs Security Api Application
open Program (firstTurn mine)

variable {s : Deployment} {clients : Nat → Option Client} {d : Database} {x : Cache} {t : Int} {j : Nat} {client : Client}

theorem waitingThread {a : Moves} (sent : clients j = some client) (waiting : ∀ m ∈ a, m.1 ≠ j) :
    ((receive s (settled d x t) clients).run a).pool j = some (.running (client.serve s) []) := by
  rw [Program.runOthers waiting]
  show ((clients j).map (Client.serve s)).map _ = _
  rw [sent]
  rfl

theorem waitingSilent {a : Moves} (waiting : ∀ m ∈ a, m.1 ≠ j) {m : Commit}
    (mem : m ∈ ((receive s (settled d x t) clients).run a).world.history) : m.client ≠ j := by
  rcases Program.runClients (receive s (settled d x t) clients) a m mem with old | ⟨m',inside,same⟩
  · contradiction
  · exact same ▸ waiting m' inside

theorem turnPath {a : Moves} (sent : clients j = some client) (waiting : ∀ m ∈ a, m.1 ≠ j) (b : Moves) :
    let w := ((receive s (settled d x t) clients).run a).world
    ∃ h, ((receive s (settled d x t) clients).run (a ++ b)).world.history = h ++ w.history ∧
      Program.Path (fun h m => m.client = j → ∃ task, Done s w.db w.clock h m client task) w.db w.clock h := by
  intro w
  refine ⟨(((receive s (settled d x t) clients).run a).anew.run b).world.history,?_,?_⟩
  · rw [Program.State.runAppend,Program.runAnew]
    rfl
  · have good := systemGood (fun _ => True) s clients (w := settled d x t) rfl a fun _ _ => trivial
    refine Program.turnPath (waitingThread sent waiting) (fun i q pending found => (good.threads i _ found).1) ?_ b
    refine Program.wpMono (fun _ _ _ _ => trivial) (fun _ _ _ => trivial) (clientEnds s client ?_ rfl (Program.freshRooted rfl) ?_)
    · exact Program.pooledFair (fun _ => trivial) fun _ _ => trivial
    · exact fun h m task _ done _ => ⟨task,done⟩

/-- The client has done its task, entitled by what it had seen since the world `w`. -/
def DoneSince (s : Deployment) (w : World) (h : Log) (m : Commit) (client : Client) (task : Task) : Prop :=
  ∃ since, h = since ++ w.history ∧ Done s w.db w.clock since m client task

theorem doneSinceTurn {moves : Moves} {later h : Log} {m : Commit}
    (split : ((receive s (settled d x t) clients).run moves).world.history = later ++ m :: h) :
    ∃ client task, clients m.client = some client ∧
      DoneSince s (firstTurn (receive s (settled d x t) clients) moves m.client) h m client task := by
  obtain ⟨client,_,sent,_⟩ : entitled s clients d t m.client h m := by
    have path := (systemPath s clients (w := settled d x t) rfl moves).1
    rw [split] at path
    cases path.suffix with
    | commit _ _ _ _ known => exact known
  have waiting := Program.turnWaits moves m.client
  obtain ⟨since,grown,path⟩ := turnPath (s := s) (d := d) (x := x) (t := t) sent waiting (moves.dropWhile fun n => n.1 != m.client)
  rw [List.takeWhile_append_dropWhile,split] at grown
  rcases List.append_eq_append_iff.mp grown with ⟨rest,rfl,same⟩ | ⟨rest,rfl,same⟩
  · cases rest with
    | nil => exact absurd rfl (waitingSilent waiting (same ▸ List.mem_cons_self))
    | cons first own =>
      obtain ⟨rfl,rfl⟩ := List.cons.inj same
      cases path.suffix with
      | commit _ _ _ _ known =>
        obtain ⟨task,done⟩ := known rfl
        exact ⟨client,task,sent,own,rfl,done⟩
  · exact absurd rfl (waitingSilent (m := m) waiting (same ▸ List.mem_append_right rest List.mem_cons_self))

end LibraryApi.FirstTurns
