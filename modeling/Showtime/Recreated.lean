import Showtime.Cabling
/-!
# Cables that come back

The stage creates a cable when the request is accepted, and tells the clients
of it when the handshake of their performers is over. In between the cable may
have been destroyed.
-/

namespace Showtime.Recreated

open ZstHierarchy ZstStageHierarchy ZstStageSession ZstStage Sending Cabling
open Naming (syncer)

/-- The messages that were sent since the first state. -/
def sentSince (s t : ZstSession) : List Outgoing :=
  t.hierarchy.sent.drop s.hierarchy.sent.length

/-- The step tells the clients something. What one client asks for as a
snapshot of the graph is whispered to it. -/
def TellsClients (s : ZstSession) (event : StageEvent) (content : Content) : Prop :=
  syncer s event = none ∧
    ∃ t, step s event = .ok t ∧ ∃ m ∈ sentSince s t, m.content = content

/-- A cable that was destroyed is only created again after a new request for it
was accepted. -/
def RecreatesAccepted (events : List StageEvent) : Prop :=
  ∀ before destroys between creates after s t a,
    events = before ++ destroys :: between ++ creates :: after →
    Library.run step opened before = .ok s →
    Library.run step s (destroys :: between) = .ok t →
    TellsClients s destroys (.cableDestroyRequest a) →
    TellsClients t creates (.cableCreateRequest a) →
    ∃ first event last u, between ++ [creates] = first ++ event :: last ∧
      Library.run step s (destroys :: first) = .ok u ∧ Accepts u a event

/-- The cable whose handshake is over was not destroyed meanwhile. -/
def StaysInUse (s : ZstSession) (event : StageEvent) : Prop :=
  ∀ cable ∈ completed s.hierarchy event, (s.cableObjects cable).syncStatus = .activated

instance (s : ZstSession) (event : StageEvent) : Decidable (StaysInUse s event) :=
  inferInstanceAs (Decidable (∀ cable ∈ completed s.hierarchy event, _))

section Runs

/-- What a step tells of cables. -/
theorem wired_news {s : ZstSession} (wired : Wired s) {event : StageEvent} {content : Content}
    (hbroadcasts : TellsClients s event content) :
    ∃ u m, ZstStage.step s event = .ok u ∧ News s event u m ∧ m.content = content := by
  obtain ⟨hsync, u, hrun, m, hm, hcontent⟩ := hbroadcasts
  obtain ⟨messages, hnews, hsent⟩ := (step_cables wired.cabled wired.indexed hrun).2 hsync
  refine ⟨u, m, hrun, hnews m ?_, hcontent⟩
  unfold sentSince at hm
  rw [hsent, List.drop_left] at hm
  exact hm

/-- As long as no handshake ends after its cable was destroyed, a destroyed
cable is only created again for a new request. -/
theorem recreatesAccepted_of_inUse (events : List StageEvent)
    (hcondition : Library.Along step StaysInUse opened events) : RecreatesAccepted events := by
  rintro before destroys between creates after s t a rfl hbefore hbetween hdestroys hcreates
  have hs : Wired s := Wired.opened.run hbefore
  obtain ⟨u, hdestroyed, hrest⟩ := Library.run_cons_ok.mp hbetween
  obtain ⟨u', m, hstep, hnews, hcontent⟩ := wired_news hs hdestroys
  obtain rfl : u = u' := Except.ok.inj (hdestroyed.symm.trans hstep)
  have hdoomed : NoneInUse u a := hnews.2 a hcontent
  have ht : Wired t := hs.run hbetween
  -- from here on the cable is doomed until a request for it is accepted
  have hstays (v : ZstSession) (event : StageEvent) (w : ZstSession) (hv : Wired v)
      (hdoomed : NoneInUse v a) (hrun : ZstStage.step v event = .ok w) :
      Accepts v a event ∨ NoneInUse w a := hdoomed.step hv.cabled hv.indexed hrun
  rcases Library.run_until (fun _ _ _ hv hrun => hv.step hrun) hstays (hs.step hdestroyed)
      hdoomed hrest with ⟨first, event, last, v, rfl, hfirst, haccepts⟩ | hlast
  · exact ⟨first, event, last ++ [creates], v, by simp,
      Library.run_cons_ok.mpr ⟨u, hdestroyed, hfirst⟩, haccepts⟩
  · obtain ⟨w, m', -, hnews', hcontent'⟩ := wired_news ht hcreates
    refine ⟨between, creates, [], t, rfl, hbetween, ?_⟩
    rcases hnews'.1 a hcontent' with haccepts | ⟨cable, hcable, haddress, hcompleted⟩
    · exact haccepts
    · have hinUse : StaysInUse t creates :=
        Library.along_append_cons hcondition (Library.run_append_ok.mpr ⟨s, hbefore, hbetween⟩)
      exact absurd (hinUse cable hcompleted) (hlast cable hcable haddress)

def unplugging : StageEvent :=
  .receive { content := .cableDestroyRequest lead, id := 4, originEndpointUUID := 2 }

/-- The cable is unplugged before the handshake, which never ends, and requested again. -/
def replugged : List StageEvent :=
  plugs ++ [.receive (plugging 3), unplugging, .cableEvents, .receive (plugging 5),
    .respond 9 (some (.signalMessage .ok))]

theorem recreatesAccepted_of_inUse_replugged :
    (∃ s, Library.run step opened replugged = .ok s ∧
      [.cableDestroyRequest lead, .cableDestroyRequest lead, .cableCreateRequest lead,
        .cableCreateRequest lead] ⊆ s.hierarchy.sent.map Outgoing.content) ∧
      RecreatesAccepted replugged :=
  ⟨⟨_, rfl, by decide⟩, recreatesAccepted_of_inUse replugged (by decide)⟩

/-- The cable is unplugged while its handshake is going on. -/
def outrun : List StageEvent :=
  plugs ++ [.receive (plugging 3)] ++ unplugging :: [] ++ [.respond 4 (some (.signalMessage .ok))]

/-- The clients are told to create a cable that the stage has destroyed. -/
theorem outrun_not_recreatesAccepted : ¬ ∀ events, RecreatesAccepted events := by
  intro hall
  obtain ⟨s, t, hs, ht, hdestroys, hcreates⟩ : ∃ s t,
      Library.run step opened (plugs ++ [.receive (plugging 3)]) = .ok s ∧
      Library.run step s [unplugging] = .ok t ∧
      TellsClients s unplugging (.cableDestroyRequest lead) ∧
      TellsClients t (.respond 4 (some (.signalMessage .ok))) (.cableCreateRequest lead) :=
    ⟨_, _, rfl, rfl, ⟨rfl, _, rfl, { target := 1, content := .cableDestroyRequest lead },
      by decide, rfl⟩, ⟨rfl, _, rfl, { target := 1, content := .cableCreateRequest lead },
      by decide, rfl⟩⟩
  obtain ⟨first, event, last, u, hsplit, -, haccepts⟩ :=
    hall outrun _ unplugging [] _ [] s t lead rfl hs ht hdestroys hcreates
  have hmem : event ∈ [StageEvent.respond 4 (some (.signalMessage .ok))] := by
    rw [List.nil_append] at hsplit
    rw [hsplit]
    simp
  obtain rfl := List.mem_singleton.mp hmem
  exact haccepts

end Runs

end Showtime.Recreated
