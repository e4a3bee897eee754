import Gevent.Bookkeeping
import Gevent.HubRuns
import Gevent.QueueLists
import Gevent.Rendezvous
import Gevent.MainWaits
import Gevent.States
import Gevent.Permits
import Gevent.NoBarging
import Gevent.Resolver
import Gevent.Punctual
import Gevent.Passes
import Gevent.WakeOrder
import Gevent.NoStarvation
import Gevent.ArmedTimers
import Gevent.ExitFn
import Gevent.HandleList
import Gevent.PythonChannel
import Gevent.StackSwitching
import Gevent.HubTimers
import Gevent.LoopEnds
import Gevent.OwnStacks
