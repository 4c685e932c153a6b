import Filly.UnsavedWork

/-!
# The edge of a wire

A wire that is released over an input port makes one edge. The loop over the ports of the node
ends there, but the loop over the nodes goes on with the same port count, so the first port of
the next node passes for the port under the cursor as well.
-/
namespace Filly.Builder
open CJson

/-! ## What a released wire is to do -/

/-- The wire becomes an edge to the port with the number. -/
def EdgeTo (g : ConnectionGraph) (target : ℕ) (p : BuilderProject) : Prop :=
  ∃ ni pi port src, (portPlaces g)[target]? = some (ni,pi,port) ∧ port.isOutput = false ∧
    g.wireSource = some src ∧ graphPortsCompatible src port = true ∧
      p = projectAddEdge g.project (Int32.ofInt g.wireStartNode) (Int32.ofInt g.wireStartPort)
        (Int32.ofNat ni) (Int32.ofNat pi)

/-- There is no new edge, or one to the port under the cursor. -/
def OneWireOneEdge (screen : Int32 → Int32) (g : ConnectionGraph) (x y : Int32) : Prop :=
  ∃ r, graphMouseUp screen g x y = some r ∧
    (r.2.project = g.project ∨
      ∃ target, graphFindPortAt screen g x y = some target ∧ EdgeTo g target r.2.project)

/-- The first ports of the nodes that have any, up to one that is an output. -/
def firstInputs (nodes : List GraphNode) : List PortDef :=
  (nodes.filterMap (·.ports.head?)).takeWhile (!·.isOutput)

/-- If there is an input under the cursor, the wire comes from a port, and that is compatible
with none of the inputs that stand first on the nodes right after the one found. -/
def NoneFollows (screen : Int32 → Int32) (g : ConnectionGraph) (x y : Int32) : Prop :=
  ∀ target ni pi port, graphFindPortAt screen g x y = some target →
    (portPlaces g)[target]? = some (ni,pi,port) → port.isOutput = false →
      ∃ src, g.wireSource = some src ∧
        ∀ next ∈ firstInputs ((visitedNodes g).drop (ni+1)), ¬graphPortsCompatible src next

/-! ## The two loops -/

variable {g : ConnectionGraph} {p : BuilderProject}

theorem scanPorts_passed {target portIdx : ℕ} (h : target < portIdx) (pi : ℕ)
    (ports : List PortDef) :
    scanPorts target portIdx pi ports = (none,portIdx+ports.length) := by
  induction ports generalizing portIdx pi with
  | nil => rfl
  | cons port ports ih =>
      rw [scanPorts,if_neg fun hp => absurd hp.1 (by omega),ih (by omega),List.length_cons]
      congr 1
      omega

/-- The loop over the ports of a node stops at the one with the number if that is an input. -/
theorem scanPorts_eq (portIdx pi k : ℕ) (ports : List PortDef) :
    scanPorts (portIdx+k) portIdx pi ports =
      match ports[k]? with
      | some port =>
          if port.isOutput then (none,portIdx+ports.length)
          else (some (pi+k,port),portIdx+k)
      | none => (none,portIdx+ports.length) := by
  induction ports generalizing portIdx pi k with
  | nil => rfl
  | cons port ports ih =>
      have hlength : portIdx+1+ports.length = portIdx+(port::ports).length := by
        rw [List.length_cons]
        omega
      cases k with
      | zero =>
          cases houtput : port.isOutput with
          | false => simp [scanPorts,houtput]
          | true =>
              have hnext : scanPorts (portIdx+0) portIdx pi (port::ports) =
                  scanPorts portIdx (portIdx+1) (pi+1) ports := by simp [scanPorts,houtput]
              rw [hnext,scanPorts_passed (by omega),hlength]
              simp only [List.getElem?_cons_zero,houtput,if_true]
      | succ k =>
          have hpi : pi+1+k = pi+(k+1) := by omega
          rw [scanPorts,if_neg fun hp => absurd hp.1 (by omega),
            show portIdx+(k+1) = portIdx+1+k by omega,ih,hlength,hpi,List.getElem?_cons_succ]

theorem dropWire_passed {target portIdx : ℕ} (h : target < portIdx) (ni : ℕ)
    (nodes : List GraphNode) : dropWire g target ni portIdx nodes p = some p := by
  induction nodes generalizing ni portIdx with
  | nil => rfl
  | cons node nodes ih =>
      rw [dropWire,scanPorts_passed h]
      exact ih (by omega) (ni+1)

/-- After the loop over the ports of a node has stopped, each of the first inputs that follow
gets an edge if it is compatible. -/
theorem dropWire_after {src : PortDef} (hsrc : g.wireSource = some src) (target ni : ℕ)
    (nodes : List GraphNode) (p : BuilderProject) :
    ∃ p', dropWire g target ni target nodes p = some p' ∧
      p'.edges.length =
        p.edges.length+(firstInputs nodes).countP (graphPortsCompatible src ·) ∧
      ((∀ next ∈ firstInputs nodes, ¬graphPortsCompatible src next) → p' = p) := by
  obtain ⟨srcNode,hnode,hport⟩ := Option.bind_eq_some_iff.1 hsrc
  induction nodes generalizing ni p with
  | nil => exact ⟨p,rfl,rfl,fun _ => rfl⟩
  | cons node nodes ih =>
      have hscan := scanPorts_eq target 0 0 node.ports
      rw [Nat.add_zero] at hscan
      rw [dropWire,hscan]
      cases hports : node.ports with
      | nil =>
          have hfirst : firstInputs (node::nodes) = firstInputs nodes := by
            simp [firstInputs,hports]
          rw [hfirst]
          exact ih (ni+1) p
      | cons port ports =>
          cases houtput : port.isOutput with
          | true =>
              have hfirst : firstInputs (node::nodes) = [] := by
                simp [firstInputs,hports,houtput]
              simp only [List.getElem?_cons_zero,houtput,if_true,hfirst]
              exact ⟨p,dropWire_passed (by rw [List.length_cons]; omega) _ _,rfl,fun _ => rfl⟩
          | false =>
              have hfirst : firstInputs (node::nodes) = port::firstInputs nodes := by
                simp [firstInputs,hports,houtput]
              simp only [List.getElem?_cons_zero,houtput,Bool.false_eq_true,if_false,hnode,hport,
                Option.bind_eq_bind,Option.bind_some,hfirst,List.countP_cons,List.forall_mem_cons]
              by_cases hcompatible : graphPortsCompatible src port = true
              · rw [if_pos hcompatible,if_pos hcompatible]
                obtain ⟨p',hp',hlength,-⟩ := ih (ni+1) (projectAddEdge p (Int32.ofInt g.wireStartNode)
                  (Int32.ofInt g.wireStartPort) (Int32.ofNat ni) (Int32.ofNat 0))
                refine ⟨p',hp',?_,fun h => absurd hcompatible h.1⟩
                rw [hlength,projectAddEdge,List.length_append,List.length_singleton]
                omega
              · rw [if_neg hcompatible,if_neg hcompatible]
                obtain ⟨p',hp',hlength,hsame⟩ := ih (ni+1) p
                exact ⟨p',hp',hlength,fun h => hsame h.2⟩

/-- The ports of the nodes, which are counted from a number on. -/
def placesFrom (ni : ℕ) (nodes : List GraphNode) : List (ℕ × ℕ × PortDef) :=
  (nodes.zipIdx ni).flatMap fun n => n.1.ports.zipIdx.map fun port => (n.2,port.2,port.1)

theorem placesFrom_cons (ni : ℕ) (node : GraphNode) (nodes : List GraphNode) :
    placesFrom ni (node::nodes) =
      (node.ports.zipIdx.map fun port => (ni,port.2,port.1))++placesFrom (ni+1) nodes := rfl

theorem le_of_mem_placesFrom {ni mi pi : ℕ} {port : PortDef} {nodes : List GraphNode}
    (h : (mi,pi,port) ∈ placesFrom ni nodes) : ni ≤ mi := by
  obtain ⟨n,hn,hport⟩ := List.mem_flatMap.1 h
  obtain ⟨_,-,heq⟩ := List.mem_map.1 hport
  cases heq
  exact List.le_snd_of_mem_zipIdx hn

/-- The loop over the nodes up to the port with the number, and what is left of it then. -/
theorem dropWire_eq (ni portIdx k : ℕ) (nodes : List GraphNode) (p : BuilderProject) :
    dropWire g (portIdx+k) ni portIdx nodes p =
      match (placesFrom ni nodes)[k]? with
      | some (mi,pi,port) =>
          if port.isOutput then some p
          else g.wireSource.bind fun src =>
            dropWire g (portIdx+k) (mi+1) (portIdx+k) (nodes.drop (mi+1-ni))
              (if graphPortsCompatible src port then
                projectAddEdge p (Int32.ofInt g.wireStartNode) (Int32.ofInt g.wireStartPort)
                  (Int32.ofNat mi) (Int32.ofNat pi)
              else p)
      | none => some p := by
  induction nodes generalizing ni portIdx k with
  | nil => rfl
  | cons node nodes ih =>
      rw [dropWire,scanPorts_eq,placesFrom_cons]
      by_cases hk : k < node.ports.length
      · have hplace : (node.ports.zipIdx.map fun port => (ni,port.2,port.1))[k]? =
            some (ni,k,node.ports[k]) := by
          rw [List.getElem?_map,List.getElem?_zipIdx,List.getElem?_eq_getElem hk,Option.map_some,
            Option.map_some,Nat.zero_add]
        rw [List.getElem?_append_left (by rwa [List.length_map,List.length_zipIdx]),hplace,
          List.getElem?_eq_getElem hk]
        dsimp only
        cases node.ports[k].isOutput with
        | true => exact dropWire_passed (by omega) _ _
        | false =>
            simp only [Bool.false_eq_true,if_false,ConnectionGraph.wireSource,Option.bind_eq_bind,
              Option.bind_assoc,Nat.zero_add,show ni+1-ni = 1 by omega,List.drop_one,List.tail_cons]
      · obtain ⟨k,rfl⟩ := Nat.exists_eq_add_of_le (Nat.le_of_not_lt hk)
        rw [List.getElem?_eq_none (by omega),List.getElem?_append_right (by simp),List.length_map,
          List.length_zipIdx,Nat.add_sub_cancel_left,
          show portIdx+(node.ports.length+k) = portIdx+node.ports.length+k by omega]
        dsimp only
        rw [ih]
        cases hplace : (placesFrom (ni+1) nodes)[k]? with
        | none => rfl
        | some place =>
            obtain ⟨mi,pi,port⟩ := place
            have hle := le_of_mem_placesFrom (List.mem_of_getElem? hplace)
            dsimp only
            rw [show mi+1-ni = mi+1-(ni+1)+1 by omega,List.drop_succ_cons]

/-- The project with the edge to the port that was found. -/
def wireMade (g : ConnectionGraph) (src : PortDef) (ni pi : ℕ) (port : PortDef) : BuilderProject :=
  if graphPortsCompatible src port then
    projectAddEdge g.project (Int32.ofInt g.wireStartNode) (Int32.ofInt g.wireStartPort)
      (Int32.ofNat ni) (Int32.ofNat pi)
  else g.project

theorem wireMade_length (src : PortDef) (ni pi : ℕ) (port : PortDef) :
    (wireMade g src ni pi port).edges.length =
      g.project.edges.length+if graphPortsCompatible src port then 1 else 0 := by
  unfold wireMade
  split_ifs
  · rw [projectAddEdge,List.length_append,List.length_singleton]
  · rfl

/-- The edge to the port that was found is the only one exactly when no other is made. -/
theorem wireMade_only_iff {target ni pi n : ℕ} {port src : PortDef} {p' : BuilderProject}
    (hplace : (portPlaces g)[target]? = some (ni,pi,port)) (hinput : port.isOutput = false)
    (hsrc : g.wireSource = some src)
    (hlength : p'.edges.length = (wireMade g src ni pi port).edges.length+n)
    (hsame : n = 0 → p' = wireMade g src ni pi port) :
    p' = g.project ∨ EdgeTo g target p' ↔ n = 0 := by
  rw [wireMade_length] at hlength
  constructor
  · rintro (rfl | ⟨ni',pi',port',src',hplace',-,hsrc',hcompatible,rfl⟩)
    · omega
    · cases hplace.symm.trans hplace'
      cases hsrc.symm.trans hsrc'
      rw [if_pos hcompatible,projectAddEdge,List.length_append,List.length_singleton] at hlength
      omega
  · intro hn
    rw [hsame hn,wireMade]
    split_ifs with hcompatible
    · exact .inr ⟨ni,pi,port,src,hplace,hinput,hsrc,hcompatible,rfl⟩
    · exact .inl rfl

/-! ## One wire, one edge -/

variable {screen : Int32 → Int32} {x y : Int32}

theorem dropWire_target (target : ℕ) :
    dropWire g target 0 0 (visitedNodes g) g.project =
      match (portPlaces g)[target]? with
      | some (ni,pi,port) =>
          if port.isOutput then some g.project
          else g.wireSource.bind fun src =>
            dropWire g target (ni+1) target ((visitedNodes g).drop (ni+1)) (wireMade g src ni pi port)
      | none => some g.project := by
  have hdrop := @dropWire_eq g 0 0 target (visitedNodes g) g.project
  rw [Nat.zero_add] at hdrop
  exact hdrop

/-- Released over nothing or over an output, a wire makes no edge. -/
theorem releaseWire_kept (h : ∀ target ni pi port, graphFindPortAt screen g x y = some target →
    (portPlaces g)[target]? = some (ni,pi,port) → port.isOutput = true) :
    releaseWire screen g x y = some g.project := by
  rw [releaseWire]
  cases htarget : graphFindPortAt screen g x y with
  | none => rfl
  | some target =>
      dsimp only
      rw [dropWire_target]
      cases hplace : (portPlaces g)[target]? with
      | none => rfl
      | some place => exact if_pos (h target place.1 place.2.1 place.2.2 htarget hplace)

/-- Released over an input, it makes the edge to it and goes on behind its node. -/
theorem releaseWire_input {target ni pi : ℕ} {port : PortDef}
    (htarget : graphFindPortAt screen g x y = some target)
    (hplace : (portPlaces g)[target]? = some (ni,pi,port)) (hinput : port.isOutput = false) :
    releaseWire screen g x y = g.wireSource.bind fun src =>
      dropWire g target (ni+1) target ((visitedNodes g).drop (ni+1)) (wireMade g src ni pi port) := by
  rw [releaseWire,htarget]
  dsimp only
  rw [dropWire_target,hplace]
  exact if_neg (by rw [hinput]; exact Bool.false_ne_true)

/-- A released wire makes one edge exactly when no input that stands first on a node right
after the one found passes for the port under the cursor. -/
theorem one_wire_one_edge_iff (h : 0 ≤ g.wireStartNode) :
    OneWireOneEdge screen g x y ↔ NoneFollows screen g x y := by
  have hup : graphMouseUp screen g x y = (releaseWire screen g x y).map fun p =>
      (true,{ g with project := p, wireStartNode := -1, wireStartPort := -1 }) := by
    rw [graphMouseUp,if_pos h]
    cases releaseWire screen g x y <;> rfl
  unfold OneWireOneEdge NoneFollows
  rw [hup]
  by_cases hover : ∀ target ni pi port, graphFindPortAt screen g x y = some target →
      (portPlaces g)[target]? = some (ni,pi,port) → port.isOutput = true
  · rw [releaseWire_kept hover]
    refine iff_of_true ⟨_,rfl,.inl rfl⟩ fun target ni pi port htarget hplace hinput => ?_
    have houtput := hover target ni pi port htarget hplace
    cases hinput.symm.trans houtput
  · push Not at hover
    obtain ⟨target,ni,pi,port,htarget,hplace,hinput⟩ := hover
    have hinput := Bool.eq_false_iff.2 hinput
    rw [releaseWire_input htarget hplace hinput]
    cases hsrc : g.wireSource with
    | none =>
        refine iff_of_false (fun hone => ?_) fun hall => ?_
        · obtain ⟨_,hr,-⟩ := hone
          cases hr
        · obtain ⟨_,hs,-⟩ := hall target ni pi port htarget hplace hinput
          cases hs
    | some src =>
        rw [Option.bind_some]
        obtain ⟨p',hp',hlength,hsame⟩ := dropWire_after hsrc target (ni+1)
          ((visitedNodes g).drop (ni+1)) (wireMade g src ni pi port)
        have hnone := List.countP_eq_zero (l := firstInputs ((visitedNodes g).drop (ni+1)))
          (p := (graphPortsCompatible src ·))
        have honly := wireMade_only_iff hplace hinput hsrc hlength fun h0 => hsame (hnone.1 h0)
        rw [hp',htarget]
        constructor
        · rintro ⟨r,hr,hresult⟩ t ni' pi' port' ht hport hin
          cases ht
          cases hplace.symm.trans hport
          cases hr
          refine ⟨src,rfl,hnone.1 (honly.1 (hresult.imp_right ?_))⟩
          rintro ⟨t,ht,hedge⟩
          cases ht
          exact hedge
        · intro hall
          obtain ⟨src',hs,hno⟩ := hall target ni pi port rfl hplace hinput
          cases hs
          exact ⟨_,rfl,(honly.2 (hnone.2 hno)).imp_right fun hedge => ⟨target,rfl,hedge⟩⟩

/-! ## Two inputs and a text -/

/-- A project with a node for each widget. -/
def nodesOf (widgetTypes : List String) : BuilderProject :=
  widgetTypes.foldl (fun p type =>
    projectAddNode (projectAddItem p (bytes type) 0 0 200 120) p.nextItemId)
    (projectNew none 800 600)

/-- The wire starts at the first port of the first node. -/
def wireBegun (widgetTypes : List String) : Option ConnectionGraph :=
  (graphMouseDown id (fun _ _ _ _ => false) (graphNew (nodesOf widgetTypes)) 226 52).map Prod.snd

/-- Released over the first input of the second node, the wire makes one edge if no other node
follows. -/
theorem last_node_gets_one_edge : ∃ g, wireBegun ["input","input"] = some g ∧
    OneWireOneEdge id g 274 52 := by
  have hstart : (wireBegun ["input","input"]).map (fun g => (g.wireStartNode,g.wireSource.isSome)) =
      some (0,true) := by decide +kernel
  have hfound : (wireBegun ["input","input"]).map (fun g =>
      ((graphFindPortAt id g 274 52).bind fun target => (portPlaces g)[target]?).map Prod.fst) =
        some (some 1) := by decide +kernel
  have hlast : (wireBegun ["input","input"]).map (fun g =>
      (firstInputs ((visitedNodes g).drop 2)).length) = some 0 := by decide +kernel
  obtain ⟨g,hg,hstart⟩ := Option.map_eq_some_iff.1 hstart
  rw [hg,Option.map_some,Option.some_inj] at hfound hlast
  rw [Prod.mk.injEq] at hstart
  refine ⟨g,hg,(one_wire_one_edge_iff (by rw [hstart.1])).2 ?_⟩
  intro target ni pi port htarget hplace _
  obtain ⟨src,hsrc⟩ := Option.isSome_iff_exists.1 hstart.2
  rw [htarget,Option.bind_some,hplace,Option.map_some,Option.some_inj] at hfound
  dsimp only at hfound
  rw [hfound,List.length_eq_zero_iff.1 hlast]
  exact ⟨src,hsrc,List.forall_mem_nil _⟩

/-- With a text behind it, whose only port is an input, there are two edges. -/
theorem text_gets_an_edge_too : ∃ g, wireBegun ["input","input","text"] = some g ∧
    0 ≤ g.wireStartNode ∧ ¬OneWireOneEdge id g 274 52 := by
  have hstart : (wireBegun ["input","input","text"]).map (fun g =>
      (g.wireStartNode,g.project.edges.length)) = some (0,0) := by decide +kernel
  have hedges : (wireBegun ["input","input","text"]).bind (fun g =>
      (graphMouseUp id g 274 52).map fun r => r.2.project.edges.length) = some 2 := by
    decide +kernel
  obtain ⟨g,hg,hstart⟩ := Option.map_eq_some_iff.1 hstart
  rw [Prod.mk.injEq] at hstart
  refine ⟨g,hg,by rw [hstart.1],?_⟩
  rintro ⟨r,hr,hresult⟩
  rw [hg,Option.bind_some,hr,Option.map_some,Option.some_inj] at hedges
  rcases hresult with hsame | ⟨_,-,_,_,_,_,-,-,-,-,hadded⟩
  · rw [hsame,hstart.2] at hedges
    cases hedges
  · rw [hadded,projectAddEdge,List.length_append,hstart.2] at hedges
    cases hedges

end Filly.Builder
