import Csockets.MasterRuns
import Csockets.Rooms
import Csockets.Rosters
import Csockets.ServerReads

/-!
The chat server as a whole: what room it is, what its users read and who they are, in whatever
order `main` and the master thread take their steps.
-/

namespace Csockets.ChatRoom

open scoped List
open Files Threads NetModel UsersModel UsersRefine ServerModel ServerLog ServerList Deliveries
  ServerSends ServerReads ServerTable Rooms Rosters AddrModel MainModel MasterModel MasterRuns

/-- **The program is a chat room**: in whatever state it gets to, the calls made so far are those
that a room with no heap and no buffers makes of the messages handled, and as long as the master
thread is in its loop its table stands for the members of that room. -/
theorem chat_room (sys : Sys) (env : Env) (turns : ℕ) (f : Table) (w : World) (as : List Action) :
    (chat sys env turns f w as).All fun st =>
      ∃ r : Room, r = st.handled.foldl (meet sys ACTUSER_TIMEOUT) Room.empty ∧
        ledger st.activeUsers.io = r.ledger ∧
        (Looping st.master → ∃ L, Rep st.activeUsers L ∧ L.map Prod.snd = r.members) := by
  refine chat_all sys env turns f w as fun bound w' l st hslots _ _ hinv => ⟨_, rfl, ?_⟩
  obtain ⟨-, s, hs, hio, hsame, -⟩ := run_of_inv hslots hinv
  obtain ⟨s', hs', -, L, hrep, hroom⟩ := runs_hosts sys ACTUSER_TIMEOUT st.handled
  obtain rfl := Option.some.inj (hs'.symm.trans hs)
  rw [← hroom, hio]
  refine ⟨rfl, fun hloop => ⟨L, ?_, rfl⟩⟩
  rw [hsame hloop]
  exact hrep

/-- **What the users read**: in whatever state the program gets to, the chat datagrams sent so far,
read one after the other, are the ids and texts of messages that came in by its sockets and whose
senders were accepted, in their order, each as often as there were users to send it to. -/
theorem chat_reads (sys : Sys) (env : Env) (turns : ℕ) (f : Table) (w : World) (as : List Action) :
    (chat sys env turns f w as).All fun st =>
      (∀ input ∈ st.handled, ∃ n < st.sfdArrLen, st.sfdArr[n]? = some input.sfd) ∧
      ∃ rounds : List Round,
        rounds.map Round.datagram <+ st.handled.filterMap datagramOf ∧
        (chats st.activeUsers.io.log).map (fun c => readLine c.buffer) =
          rounds.flatMap Round.reads ∧
        (accepted st.activeUsers.io.log).map (fun u => u.addr) =
          rounds.map fun x => x.datagram.name.storage := by
  refine chat_all sys env turns f w as fun bound w' l st hslots _ _ hinv => ?_
  obtain ⟨hinputs, s, hs, hio, -, -⟩ := run_of_inv hslots hinv
  obtain ⟨s', hs', hrounds⟩ := runs_read sys ACTUSER_TIMEOUT st.handled
  obtain rfl := Option.some.inj (hs'.symm.trans hs)
  rw [hio]
  exact ⟨hinputs, hrounds⟩

/-- **Whom they hear**: the chat datagrams sent so far went, for one accepted message after the
other, to everybody who was on the roster when it was accepted, in the order they came in. The
roster comes of the kicks and the accepted messages alone, whose records have the sockets and the
addresses of the datagrams handled; it has nobody on it twice, and as long as the master thread
is in its loop it is what its table holds. -/
theorem chat_recipients (sys : Sys) (env : Env) (turns : ℕ) (f : Table) (w : World)
    (as : List Action) :
    (chat sys env turns f w as).All fun st =>
      (chats st.activeUsers.io.log).map Contact.ofSend = recipients st.activeUsers.io.log ∧
      updates st.activeUsers.io.log =
        (history sys st.handled (started ACTUSER_TIMEOUT)).map Delivery.outcome ∧
      (∀ past, past <+: st.activeUsers.io.log → (peers (roster past)).Nodup) ∧
      (Looping st.master →
        ∃ L, Rep st.activeUsers L ∧ contacts L = roster st.activeUsers.io.log) := by
  refine chat_all sys env turns f w as fun bound w' l st hslots _ _ hinv => ?_
  obtain ⟨-, s, hs, hio, hsame, -⟩ := run_of_inv hslots hinv
  obtain ⟨s', L, hs', hrep, hroster, hchats⟩ := runs_recipients sys ACTUSER_TIMEOUT st.handled
  obtain rfl := Option.some.inj (hs'.symm.trans hs)
  obtain ⟨htold, -⟩ := started_told hs
  refine ⟨hio ▸ hchats, hio ▸ htold, fun past _ => roster_nodup past, fun hloop =>
    ⟨L, ?_, hio ▸ hroster⟩⟩
  rw [hsame hloop]
  exact hrep

/-- **Who the users are**: as long as the master thread is in its loop, its table is the map of the
peers whose datagram was accepted and who were not kicked since, to their latest such datagram. -/
theorem chat_members (sys : Sys) (env : Env) (turns : ℕ) (f : Table) (w : World)
    (as : List Action) :
    (chat sys env turns f w as).All fun st => Looping st.master →
      ∃ L ds, Rep st.activeUsers L ∧ ds = history sys st.handled (started ACTUSER_TIMEOUT) ∧
        updates st.activeUsers.io.log = ds.map Delivery.outcome ∧
        IsMap L (member ds st.activeUsers.io.log) := by
  refine chat_all sys env turns f w as fun bound w' l st hslots _ _ hinv hloop => ?_
  obtain ⟨-, s, hs, -, hsame, -⟩ := run_of_inv hslots hinv
  obtain ⟨s', L, hs', hrep, htold, hmap⟩ := reachable_members sys ACTUSER_TIMEOUT st.handled
  obtain rfl := Option.some.inj (hs'.symm.trans hs)
  rw [hsame hloop]
  exact ⟨L, _, hrep, rfl, htold, hmap⟩

end Csockets.ChatRoom
