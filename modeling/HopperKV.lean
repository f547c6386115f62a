import HopperKV.Lib.Scalar
import HopperKV.Lib.StdAlgo
import HopperKV.Lib.Segment
import HopperKV.Lib.Loop
import HopperKV.Lib.Reindex
import HopperKV.Engine.Resrc
import HopperKV.Engine.Mrc
import HopperKV.Engine.MrcSound
import HopperKV.Engine.Tenant
import HopperKV.Engine.Alloc
import HopperKV.Engine.Memshare
import HopperKV.Lib.Transition
import HopperKV.Module.Inflight
import HopperKV.Module.Server
import HopperKV.Module.Dedup
import HopperKV.Module.Coherence
import HopperKV.Lib.Pad
import HopperKV.Module.Ghost
import HopperKV.Control.ResrcStat
import HopperKV.Control.Tenant
import HopperKV.Control.Profile
import HopperKV.Control.CurveSound
import HopperKV.Engine.Exact
import HopperKV.Engine.Quote
import HopperKV.Engine.Harvest
import HopperKV.Engine.Symmetric
import HopperKV.Engine.Order
import HopperKV.Engine.Conserve
import HopperKV.Module.MemEstimate
import HopperKV.Lib.Cxx
import HopperKV.Client.KvFormat
import HopperKV.Module.MockStorage
import HopperKV.Control.Estimate
import HopperKV.Control.Window
import HopperKV.Control.Demand
import HopperKV.Module.Stats
import HopperKV.Module.Rate
import HopperKV.Module.Resrc
import HopperKV.Control.Apply
